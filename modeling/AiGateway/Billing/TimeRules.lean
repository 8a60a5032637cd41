import AiGateway.Billing.Policy
import Mathlib.Tactic.IntervalCases

/-! The weekly windows of the time rules: the table of covered minutes that compilation walks and
the test at run time describe the same minutes. -/
namespace AiGateway.Billing
open Lib List

section Windows

/-- The day of the week and the minute of that day lie in the window that starts on this day: up to
the end on the same day, or past midnight up to the end on the next one. -/
def InWindow (startMinute endMinute : ℕ) (start : BillingWeekday) (day minute : ℕ) : Prop :=
  if startMinute < endMinute then day = start.index ∧ startMinute ≤ minute ∧ minute < endMinute
  else day = start.index ∧ startMinute ≤ minute ∨ day = (start.index + 1) % 7 ∧ minute < endMinute

def TimeBillingMultiplier.startMinute (rule : TimeBillingMultiplier) : ℕ :=
  (parseUtcTime rule.startTime).getD 0

def TimeBillingMultiplier.endMinute (rule : TimeBillingMultiplier) : ℕ :=
  (parseUtcTime rule.endTime).getD 0

/-- The minutes of the week one window covers, as compilation walks them. -/
def walkedMinutes (startMinute duration : ℕ) (weekday : BillingWeekday) : List ℕ :=
  (List.range duration).map
    (fun offset => (weekday.index * minutesPerDay + startMinute + offset) % minutesPerWeek)

variable {startMinute endMinute : ℕ}

theorem index_lt (weekday : BillingWeekday) : weekday.index < 7 := by
  cases weekday <;> decide

theorem index_injective {a b : BillingWeekday} (h : a.index = b.index) : a = b := by
  cases a <;> cases b <;> first | rfl | cases h

theorem duration_lt (hs : startMinute < minutesPerDay) (he : endMinute < minutesPerDay)
    (hne : startMinute ≠ endMinute) : durationMinutes startMinute endMinute < minutesPerDay := by
  unfold durationMinutes
  split_ifs <;> omega

variable {weekday : BillingWeekday} {minute duration : ℕ}

/-- The walk stays in the window and misses none of its minutes. -/
theorem mem_walkedMinutes (hs : startMinute < minutesPerDay) (he : endMinute < minutesPerDay) (hm : minute < minutesPerWeek) :
    minute ∈ walkedMinutes startMinute (durationMinutes startMinute endMinute) weekday ↔
      InWindow startMinute endMinute weekday (minute / minutesPerDay) (minute % minutesPerDay) := by
  have hin := index_lt weekday
  unfold walkedMinutes InWindow durationMinutes
  simp only [mem_map, mem_range]
  unfold minutesPerWeek at hm ⊢
  unfold minutesPerDay at *
  constructor
  · rintro ⟨off, hof, rfl⟩
    split_ifs at hof ⊢ with hor <;> omega
  · intro h
    split_ifs at h ⊢ with hor
    · exact ⟨minute - (weekday.index * (24 * 60) + startMinute), by omega, by omega⟩
    · by_cases hsa : weekday.index * (24 * 60) + startMinute ≤ minute
      · exact ⟨minute - (weekday.index * (24 * 60) + startMinute), by omega, by omega⟩
      · exact ⟨minute + 7 * (24 * 60) - (weekday.index * (24 * 60) + startMinute), by omega, by omega⟩

theorem nodup_walkedMinutes (hd : duration < minutesPerDay)
    (weekday : BillingWeekday) : (walkedMinutes startMinute duration weekday).Nodup := by
  refine List.Nodup.map_on (fun a ha b hb h => ?_) nodup_range
  rw [mem_range] at ha hb
  unfold minutesPerWeek minutesPerDay at *
  omega

theorem walkedMinutes_lt
    (h : minute ∈ walkedMinutes startMinute duration weekday) : minute < minutesPerWeek := by
  obtain ⟨off, -, rfl⟩ := mem_map.mp h
  exact Nat.mod_lt _ (by decide)

end Windows

section Mask

def maskOf (weekdays : List BillingWeekday) : BitVec 8 :=
  weekdays.foldl (fun mask weekday => mask ||| weekday.bit) 0

theorem and_twoPow_eq_zero (mask : BitVec 8) {day : ℕ} (hd : day < 8) :
    mask &&& BitVec.twoPow 8 day = 0 ↔ mask.getLsbD day = false := by
  rw [BitVec.and_twoPow]
  split_ifs with hb
  · rw [hb]
    refine iff_of_false (fun hz => ?_) Bool.noConfusion
    have hs := congrArg (fun bits : BitVec 8 => bits.getLsbD day) hz
    simp [hd] at hs
  · exact iff_of_true rfl (Bool.not_eq_true _ ▸ hb)

theorem and_bit_eq_zero (mask : BitVec 8) (weekday : BillingWeekday) :
    mask &&& weekday.bit = 0 ↔ mask.getLsbD weekday.index = false :=
  and_twoPow_eq_zero mask (Nat.lt_succ_of_lt (index_lt weekday))

theorem getLsbD_bit (weekday : BillingWeekday) (day : ℕ) :
    weekday.bit.getLsbD day = decide (day = weekday.index) := by
  have hp : weekday.bit = BitVec.twoPow 8 weekday.index := rfl
  have hin : weekday.index < 8 := Nat.lt_succ_of_lt (index_lt weekday)
  rw [hp, BitVec.getLsbD_twoPow, decide_eq_true hin]
  exact decide_eq_decide.mpr eq_comm

theorem getLsbD_foldl_bit (weekdays : List BillingWeekday) (mask : BitVec 8) (day : ℕ) :
    (weekdays.foldl (fun mask weekday => mask ||| weekday.bit) mask).getLsbD day =
      (mask.getLsbD day || weekdays.any (fun weekday => decide (day = weekday.index))) := by
  induction weekdays generalizing mask with
  | nil => simp
  | cons weekday weekdays ih =>
    rw [foldl_cons, ih, BitVec.getLsbD_or, getLsbD_bit, any_cons, Bool.or_assoc]

variable {weekdays : List BillingWeekday}

/-- The mask fails exactly on a repeated day. -/
theorem weekdayMask_eq_some {mask res : BitVec 8} :
    weekdayMask mask weekdays = some res ↔
      weekdays.Nodup ∧ (∀ weekday ∈ weekdays, mask &&& weekday.bit = 0) ∧
        res = weekdays.foldl (fun mask weekday => mask ||| weekday.bit) mask := by
  induction weekdays generalizing mask with
  | nil => simp [weekdayMask, eq_comm]
  | cons weekday weekdays ih =>
    rw [weekdayMask]
    split_ifs with ht
    · refine iff_of_false not_false (fun h => ?_)
      exact ht (h.2.1 weekday mem_cons_self)
    · rw [ih, nodup_cons, foldl_cons, forall_mem_cons]
      have hs : ∀ o : BillingWeekday, (mask ||| weekday.bit) &&& o.bit = 0 ↔
          mask &&& o.bit = 0 ∧ o ≠ weekday := by
        intro o
        rw [and_bit_eq_zero, and_bit_eq_zero, BitVec.getLsbD_or,
          getLsbD_bit, Bool.or_eq_false_iff, decide_eq_false_iff_not]
        exact and_congr_right' (not_congr ⟨index_injective, congrArg BillingWeekday.index⟩)
      have hf : (∀ o ∈ weekdays, mask &&& o.bit = 0 ∧ o ≠ weekday) ↔
          weekday ∉ weekdays ∧ ∀ o ∈ weekdays, mask &&& o.bit = 0 := by
        constructor
        · intro h
          exact ⟨fun hm => (h weekday hm).2 rfl, fun o hot => (h o hot).1⟩
        · rintro ⟨hn, h⟩ o hot
          exact ⟨h o hot, fun heq => hn (heq ▸ hot)⟩
      simp only [hs, hf]
      tauto

theorem maskOf_ne_zero : maskOf weekdays ≠ 0 ↔ weekdays ≠ [] := by
  cases weekdays with
  | nil => simp [maskOf]
  | cons weekday weekdays =>
    refine iff_of_true (fun hz => ?_) (cons_ne_nil _ _)
    have hb := congrArg (fun bits : BitVec 8 => bits.getLsbD weekday.index) hz
    have hs := getLsbD_foldl_bit (weekday :: weekdays) 0 weekday.index
    simp only [maskOf] at hb
    rw [hs] at hb
    simp at hb

end Mask

section Cover

/-- Covering fails exactly when a minute comes twice or is taken. -/
theorem coverMinutes_eq_some {covered table minutes : List ℕ} :
    coverMinutes covered minutes = some table ↔
      minutes.Nodup ∧ (∀ minute ∈ minutes, minute ∉ covered) ∧ table = minutes.reverse ++ covered := by
  induction minutes generalizing covered with
  | nil =>
    simp only [coverMinutes, Option.some_inj, nodup_nil, not_mem_nil, reverse_nil,
      nil_append, IsEmpty.forall_iff, implies_true, true_and]
    exact eq_comm
  | cons minute minutes ih =>
    rw [coverMinutes]
    split_ifs with ht
    · refine iff_of_false not_false (fun h => ?_)
      exact h.2.1 minute mem_cons_self ht
    · rw [ih, nodup_cons, forall_mem_cons, reverse_cons, append_assoc, singleton_append]
      have hf : (∀ o ∈ minutes, o ∉ minute :: covered) ↔
          minute ∉ minutes ∧ ∀ o ∈ minutes, o ∉ covered := by
        simp only [mem_cons, not_or]
        constructor
        · intro h
          exact ⟨fun hm => (h minute hm).1 rfl, fun o hot => (h o hot).2⟩
        · rintro ⟨hn, h⟩ o hot
          exact ⟨fun heq => hn (heq ▸ hot), h o hot⟩
      tauto

end Cover

section Rules

/-- The checks on one rule by itself. -/
structure RuleAccepted (rule : TimeBillingMultiplier) : Prop where
  label : rule.label.isEmpty = false ∧ isTrimmed rule.label = true ∧
    rule.label.length ≤ maxTimeMultiplierLabelChars
  multiplier : 0 ≤ rule.multiplier.value
  start : (parseUtcTime rule.startTime).isSome
  stop : (parseUtcTime rule.endTime).isSome
  minutes : rule.startMinute ≠ rule.endMinute
  weekdays : rule.weekdays.Nodup ∧ rule.weekdays ≠ []

def ruleMinutes (rule : TimeBillingMultiplier) : List ℕ :=
  windowMinutes rule rule.startMinute (durationMinutes rule.startMinute rule.endMinute)

def compileRule (rule : TimeBillingMultiplier) : CompiledTimeBillingMultiplier :=
  ⟨maskOf rule.weekdays, rule.startMinute, rule.endMinute, rule.multiplier⟩

variable {prev : List TimeBillingMultiplier} {rule : TimeBillingMultiplier}
  {rules : List TimeBillingMultiplier} {covered : List ℕ}
  {compiled : List CompiledTimeBillingMultiplier}

theorem labelAccepted_iff :
    labelAccepted prev rule = true ↔ (rule.label.isEmpty = false ∧ isTrimmed rule.label = true ∧
        rule.label.length ≤ maxTimeMultiplierLabelChars) ∧
      ∀ o ∈ prev, o.label ≠ rule.label := by
  simp only [labelAccepted, Bool.and_eq_true, Bool.not_eq_true', decide_eq_true_eq,
    any_eq_false, beq_iff_eq, and_assoc]

theorem compileTimeMultipliers_cons :
    compileTimeMultipliers prev covered (rule :: rules) = some compiled ↔
      RuleAccepted rule ∧ (∀ o ∈ prev, o.label ≠ rule.label) ∧
        (ruleMinutes rule).Nodup ∧ (∀ minute ∈ ruleMinutes rule, minute ∉ covered) ∧
        ∃ rest, compileTimeMultipliers (prev ++ [rule]) ((ruleMinutes rule).reverse ++ covered)
            rules = some rest ∧ compiled = compileRule rule :: rest := by
  simp only [compileTimeMultipliers, Option.bind_eq_bind, Option.bind_eq_some_iff,
    Option.guard_eq_some', Option.pure_def, Option.some_inj]
  constructor
  · rintro ⟨_, ⟨hl, hmu⟩, start, hst, stop, hsp, _, hne, mask, hma, _, hz, table, ht, rest, hr, rfl⟩
    obtain ⟨hl, hu⟩ := labelAccepted_iff.mp hl
    obtain ⟨hn, -, rfl⟩ := weekdayMask_eq_some.mp hma
    obtain ⟨hm, hf, rfl⟩ := coverMinutes_eq_some.mp ht
    have hs : rule.startMinute = start := by
      rw [TimeBillingMultiplier.startMinute, hst, Option.getD_some]
    have he : rule.endMinute = stop := by
      rw [TimeBillingMultiplier.endMinute, hsp, Option.getD_some]
    subst hs he
    exact ⟨⟨hl, hmu, hst ▸ rfl, hsp ▸ rfl, hne, hn, maskOf_ne_zero.mp hz⟩,
      hu, hm, hf, rest, hr, rfl⟩
  · rintro ⟨ha, hu, hm, hf, rest, hr, rfl⟩
    obtain ⟨start, hst⟩ := Option.isSome_iff_exists.mp ha.start
    obtain ⟨stop, hsp⟩ := Option.isSome_iff_exists.mp ha.stop
    have hs : rule.startMinute = start := by
      rw [TimeBillingMultiplier.startMinute, hst, Option.getD_some]
    have he : rule.endMinute = stop := by
      rw [TimeBillingMultiplier.endMinute, hsp, Option.getD_some]
    subst hs he
    refine ⟨(), ⟨labelAccepted_iff.mpr ⟨ha.label, hu⟩, ha.multiplier⟩, _, hst,
      _, hsp, (), ha.minutes, maskOf rule.weekdays, ?_, (),
      maskOf_ne_zero.mpr ha.weekdays.2, _,
      coverMinutes_eq_some.mpr ⟨hm, hf, rfl⟩, rest, hr, rfl⟩
    refine weekdayMask_eq_some.mpr ⟨ha.weekdays.1, fun weekday _ => ?_, rfl⟩
    exact BitVec.zero_and

/-- What compilation checks of the rules, and what it makes of them. -/
theorem compileTimeMultipliers_eq_some_iff :
    compileTimeMultipliers prev covered rules = some compiled ↔
      (∀ rule ∈ rules, RuleAccepted rule) ∧ (rules.map (·.label)).Nodup ∧
        (∀ rule ∈ rules, ∀ o ∈ prev, o.label ≠ rule.label) ∧
        (rules.flatMap ruleMinutes).Nodup ∧
        (∀ minute ∈ rules.flatMap ruleMinutes, minute ∉ covered) ∧
        compiled = rules.map compileRule := by
  induction rules generalizing prev covered compiled with
  | nil => simp [compileTimeMultipliers, eq_comm]
  | cons rule rules ih =>
    simp only [compileTimeMultipliers_cons, ih, forall_mem_cons, map_cons,
      nodup_cons, flatMap_cons, nodup_append', mem_append, mem_reverse, mem_map, mem_singleton, not_or, not_exists,
      not_and]
    constructor
    · rintro ⟨ha, hu, hmi, hf, _, ⟨hr, hla, hl, hn, hd,
        rfl⟩, rfl⟩
      refine ⟨⟨ha, hr⟩, ⟨fun o hot heq => ?_, hla⟩, ⟨hu, fun o hot earlier he => ?_⟩,
        ⟨hmi, hn, fun minute hfi hs => ?_⟩,
        fun minute hm => ?_, rfl⟩
      · exact hl o hot rule (.inr rfl) heq.symm
      · exact hl o hot earlier (.inl he)
      · exact (hd minute hs).1 hfi
      · rcases hm with hm | hm
        · exact hf minute hm
        · exact (hd minute hm).2
    · rintro ⟨⟨ha, hr⟩, ⟨hlb, hla⟩, ⟨hu, hl⟩, ⟨hmi, hn, hd⟩, hf, rfl⟩
      refine ⟨ha, hu, hmi, fun minute hm => hf minute (.inl hm), _,
        ⟨hr, hla, fun o hot earlier he => ?_, hn, fun minute hm =>
          ⟨fun hfi => hd hfi hm, hf minute (.inr hm)⟩, rfl⟩, rfl⟩
      rcases he with he | rfl
      · exact hl o hot earlier he
      · exact fun heq => hlb o hot heq.symm

variable {minute : ℕ}

theorem parseUtcTime_lt {v : Bytes} (h : parseUtcTime v = some minute) :
    minute < minutesPerDay := by
  unfold parseUtcTime at h
  split at h
  · dsimp only at h
    split_ifs at h with hd hb
    cases h
    unfold minutesPerDay
    omega
  · cases h

theorem getD_parseUtcTime_lt (v : Bytes) : (parseUtcTime v).getD 0 < minutesPerDay := by
  cases hp : parseUtcTime v with
  | none => decide
  | some minute => exact parseUtcTime_lt hp

/-- The windows of the rules: one for each rule and start day. -/
def windows (rules : List TimeBillingMultiplier) : List (TimeBillingMultiplier × BillingWeekday) :=
  rules.flatMap (fun rule => rule.weekdays.map (fun weekday => (rule, weekday)))

/-- The minute of the day lies in the window. -/
def Contains (window : TimeBillingMultiplier × BillingWeekday) (day minute : ℕ) : Prop :=
  InWindow window.1.startMinute window.1.endMinute window.2 day minute

/-- Some minute of the week is in both windows. -/
def Share (a b : TimeBillingMultiplier × BillingWeekday) : Prop :=
  ∃ day < 7, ∃ minute < minutesPerDay, Contains a day minute ∧ Contains b day minute

/-- Two of the windows share a minute. -/
def Overlap (rules : List TimeBillingMultiplier) : Prop :=
  ∃ (i j : ℕ) (a b : _), i < j ∧ (windows rules)[i]? = some a ∧ (windows rules)[j]? = some b ∧ Share a b

def walkedWindow (window : TimeBillingMultiplier × BillingWeekday) : List ℕ :=
  walkedMinutes window.1.startMinute (durationMinutes window.1.startMinute window.1.endMinute) window.2

theorem flatMap_ruleMinutes : rules.flatMap ruleMinutes = (windows rules).flatMap walkedWindow := by
  rw [windows, flatMap_assoc]
  congr 1
  funext rule
  rw [flatMap_map]
  rfl

variable {window a b : TimeBillingMultiplier × BillingWeekday}

theorem mem_walkedWindow
    (hm : minute < minutesPerWeek) : minute ∈ walkedWindow window ↔
      Contains window (minute / minutesPerDay) (minute % minutesPerDay) :=
  mem_walkedMinutes (getD_parseUtcTime_lt _) (getD_parseUtcTime_lt _) hm

theorem disjoint_walkedWindow :
    List.Disjoint (walkedWindow a) (walkedWindow b) ↔ ¬ Share a b := by
  constructor
  · rintro hd ⟨day, hda, minute, hmi, ha, hb⟩
    -- The minute of the week.
    have hw : day * minutesPerDay + minute < minutesPerWeek := by
      unfold minutesPerWeek minutesPerDay at *
      omega
    have hdi : (day * minutesPerDay + minute) / minutesPerDay = day := by
      unfold minutesPerDay at *
      omega
    have hm : (day * minutesPerDay + minute) % minutesPerDay = minute := by
      unfold minutesPerDay at *
      omega
    have hin : ∀ window, Contains window day minute →
        day * minutesPerDay + minute ∈ walkedWindow window := by
      intro window h
      rw [mem_walkedWindow hw, hdi, hm]
      exact h
    exact hd (hin a ha) (hin b hb)
  · intro hs minute ha hb
    have hw := walkedMinutes_lt ha
    refine hs ⟨minute / minutesPerDay, ?_, minute % minutesPerDay, Nat.mod_lt _ (by decide),
      (mem_walkedWindow hw).mp ha, (mem_walkedWindow hw).mp hb⟩
    unfold minutesPerWeek minutesPerDay at *
    omega

/-- No minute is walked twice exactly when no two windows share one. -/
theorem nodup_ruleMinutes_iff (ha : ∀ rule ∈ rules, RuleAccepted rule) :
    (rules.flatMap ruleMinutes).Nodup ↔ ¬ Overlap rules := by
  have hwi : ∀ window ∈ windows rules, (walkedWindow window).Nodup := by
    intro window hw
    obtain ⟨rule, hr, hw⟩ := mem_flatMap.mp hw
    obtain ⟨weekday, -, rfl⟩ := mem_map.mp hw
    exact nodup_walkedMinutes (duration_lt (getD_parseUtcTime_lt _) (getD_parseUtcTime_lt _)
      (ha rule hr).minutes) weekday
  rw [flatMap_ruleMinutes, nodup_flatMap, and_iff_right hwi, pairwise_iff_getElem]
  constructor
  · rintro hp ⟨i, j, a, b, hlt, hi, hj, hs⟩
    obtain ⟨hiB, rfl⟩ := List.getElem?_eq_some_iff.mp hi
    obtain ⟨hjB, rfl⟩ := List.getElem?_eq_some_iff.mp hj
    exact disjoint_walkedWindow.mp (hp i j hiB hjB hlt) hs
  · intro hov i j hi hj hlt
    refine disjoint_walkedWindow.mpr (fun hs => hov ⟨i, j, _, _, hlt,
      List.getElem?_eq_getElem hi, List.getElem?_eq_getElem hj, hs⟩)

variable {day : ℕ}

theorem startsOn_compileRule (rule : TimeBillingMultiplier) (hd : day < 7) :
    (compileRule rule).startsOn day = true ↔ ∃ weekday ∈ rule.weekdays, weekday.index = day := by
  have hp : ((1 <<< day : ℕ) : BitVec 8) = BitVec.twoPow 8 day := by
    interval_cases day <;> rfl
  have hm : (compileRule rule).startWeekdayMask = maskOf rule.weekdays := rfl
  unfold CompiledTimeBillingMultiplier.startsOn
  rw [bne_iff_ne, hp, Ne, and_twoPow_eq_zero _ (Nat.lt_succ_of_lt hd), Bool.not_eq_false, hm,
    maskOf, getLsbD_foldl_bit, show (0 : BitVec 8).getLsbD day = false from BitVec.getLsbD_zero,
    Bool.false_or, any_eq_true]
  exact exists_congr (fun weekday => and_congr_right' (decide_eq_true_iff.trans eq_comm))

/-- The test at run time finds the minutes of the windows of the rule. -/
theorem matchesTime_compileRule (hd : day < 7) :
    (compileRule rule).matchesTime day minute = true ↔
      ∃ weekday ∈ rule.weekdays, Contains (rule, weekday) day minute := by
  have ht := startsOn_compileRule rule hd
  have hb := startsOn_compileRule rule (Nat.mod_lt (day + 6) (by decide : 7 > 0))
  -- A window that wraps is found again from the day before.
  have hp : ∀ weekday : BillingWeekday,
      weekday.index = (day + 6) % 7 ↔ day = (weekday.index + 1) % 7 := by
    intro weekday
    have hin := index_lt weekday
    omega
  have hs : (compileRule rule).startMinute = rule.startMinute := rfl
  have he : (compileRule rule).endMinute = rule.endMinute := rfl
  simp only [hp] at hb
  unfold CompiledTimeBillingMultiplier.matchesTime Contains InWindow
  rw [hs, he]
  split_ifs with hor
  · simp only [Bool.and_eq_true, ht, decide_eq_true_eq]
    constructor
    · rintro ⟨⟨weekday, hme, hin⟩, hm⟩
      exact ⟨weekday, hme, hin.symm, hm⟩
    · rintro ⟨weekday, hme, hin, hm⟩
      exact ⟨⟨weekday, hme, hin.symm⟩, hm⟩
  · simp only [Bool.or_eq_true, Bool.and_eq_true, ht, hb, decide_eq_true_eq]
    constructor
    · rintro (⟨hm, weekday, hme, hin⟩ | ⟨hm, weekday, hme, hin⟩)
      · exact ⟨weekday, hme, .inl ⟨hin.symm, hm⟩⟩
      · exact ⟨weekday, hme, .inr ⟨hin, hm⟩⟩
    · rintro ⟨weekday, hme, ⟨hin, hm⟩ | ⟨hin, hm⟩⟩
      · exact .inl ⟨hm, weekday, hme, hin.symm⟩
      · exact .inr ⟨hm, weekday, hme, hin⟩

/-- Without overlap at most one compiled rule matches a minute. -/
theorem pairwise_of_not_overlap (h : ¬ Overlap rules) (hd : day < 7)
    (hm : minute < minutesPerDay) :
    (rules.map compileRule).Pairwise (fun a b =>
      ¬ (a.matchesTime day minute = true ∧ b.matchesTime day minute = true)) := by
  have hw : (windows rules).Pairwise (fun a b => ¬ Share a b) := by
    rw [pairwise_iff_getElem]
    exact fun i j hi hj hlt hsh => h ⟨i, j, _, _, hlt, List.getElem?_eq_getElem hi,
      List.getElem?_eq_getElem hj, hsh⟩
  rw [windows, pairwise_flatMap] at hw
  rw [pairwise_map]
  refine hw.2.imp (fun {a b} hap => ?_)
  rintro ⟨ha, hb⟩
  obtain ⟨first, hf, haf⟩ := (matchesTime_compileRule hd).mp ha
  obtain ⟨second, hs, hbs⟩ := (matchesTime_compileRule hd).mp hb
  exact hap (a, first) (mem_map_of_mem hf) (b, second) (mem_map_of_mem hs)
    ⟨day, hd, minute, hm, haf, hbs⟩

/-- A predicate that holds of at most one element finds it in every order. -/
theorem find?_eq_of_perm {α : Type} {p : α → Bool} {l l' : List α} (hp : l.Perm l')
    (h : l.Pairwise (fun a b => ¬ (p a = true ∧ p b = true))) : l.find? p = l'.find? p := by
  have hf : (l.filter p).Perm (l'.filter p) := hp.filter p
  have hm : (l.filter p).Pairwise (fun a b => ¬ (p a = true ∧ p b = true)) := h.filter p
  have hh : ∀ a ∈ l.filter p, p a = true := fun a ha => (mem_filter.mp ha).2
  rw [← List.head?_filter, ← List.head?_filter]
  cases hfi : l.filter p with
  | nil =>
    rw [hfi] at hf
    rw [hf.nil_eq]
  | cons a rest =>
    cases rest with
    | nil =>
      rw [hfi] at hf
      rw [singleton_perm.mp hf]
    | cons b rest =>
      rw [hfi] at hm hh
      exact absurd ⟨hh a mem_cons_self, hh b (mem_cons_of_mem _ mem_cons_self)⟩
        (rel_of_pairwise_cons hm mem_cons_self)

end Rules

/-- The checks of compilation apart from the one for overlap. -/
structure OtherwiseAccepted (toVec : Json → Option Bytes) (value : AdvancedBilling) : Prop where
  tiers : tiersAccepted 0 value.longContextTiers = true
  requests : requestMultipliersAccepted toVec [] value.requestMultipliers = true
  count : value.timeMultipliers.length ≤ maxTimeMultipliers
  rules : ∀ rule ∈ value.timeMultipliers, RuleAccepted rule
  labels : (value.timeMultipliers.map (·.label)).Nodup
  maximum : (product 1 (aboveOne (value.requestMultipliers.map (·.multiplier)))).isSome = true

section Compile
variable {toVec : Json → Option Bytes} {v : AdvancedBilling} {billing : CompiledAdvancedBilling}
open CompiledAdvancedBilling

theorem accepted_of_compile (h : compile toVec v = some billing) :
    OtherwiseAccepted toVec v ∧ ¬ Overlap v.timeMultipliers ∧
      billing.timeMultipliers = v.timeMultipliers.map compileRule := by
  simp only [compile, Option.bind_eq_bind, Option.bind_eq_some_iff, Option.guard_eq_some',
    Option.pure_def, Option.some_inj] at h
  obtain ⟨-, ht, -, hr, -, hco, compiled, hc, top, hto, rfl⟩ := h
  obtain ⟨hru, hl, -, hn, -, rfl⟩ := compileTimeMultipliers_eq_some_iff.mp hc
  exact ⟨⟨ht, hr, hco, hru, hl, hto ▸ rfl⟩, (nodup_ruleMinutes_iff hru).mp hn, rfl⟩

theorem compile_isSome (h : OtherwiseAccepted toVec v) (hov : ¬ Overlap v.timeMultipliers) :
    ∃ billing, compile toVec v = some billing := by
  obtain ⟨top, ht⟩ := Option.isSome_iff_exists.mp h.maximum
  have hc : compileTimeMultipliers [] [] v.timeMultipliers =
      some (v.timeMultipliers.map compileRule) :=
    compileTimeMultipliers_eq_some_iff.mpr ⟨h.rules, h.labels,
      fun _ _ o hot => absurd hot not_mem_nil,
      (nodup_ruleMinutes_iff h.rules).mpr hov, fun _ _ => not_mem_nil, rfl⟩
  simp only [compile, h.tiers, h.requests, h.count, hc, ht, guard_true,
    Option.bind_eq_bind, Option.bind_some, Option.pure_def]
  exact ⟨_, rfl⟩

theorem compile_eq_none : compile toVec v = none ↔
    ¬ OtherwiseAccepted toVec v ∨ Overlap v.timeMultipliers := by
  constructor
  · intro hno
    by_contra hn
    rw [not_or, not_not] at hn
    obtain ⟨billing, hs⟩ := compile_isSome hn.1 hn.2
    rw [hno] at hs
    cases hs
  · intro hre
    by_contra hs
    obtain ⟨billing, hs⟩ := Option.ne_none_iff_exists'.mp hs
    obtain ⟨ha, hov, -⟩ := accepted_of_compile hs
    rcases hre with hr | hsh
    · exact hr ha
    · exact hov hsh

theorem weekday_lt (start : ℤ) : ((start / 86400 + 3) % 7).toNat < 7 := by
  omega

theorem minute_lt (start : ℤ) : (start % 86400 / 60).toNat < minutesPerDay := by
  unfold minutesPerDay
  omega

/-- An accepted policy is accepted with its time rules in any order, and selects the same
multiplier. -/
theorem timeMultiplier_perm (h : compile toVec v = some billing)
    {rules : List TimeBillingMultiplier} (hp : rules.Perm v.timeMultipliers) :
    ∃ reordered, compile toVec { v with timeMultipliers := rules } = some reordered ∧
      ∀ start, reordered.timeMultiplier start = billing.timeMultiplier start := by
  obtain ⟨ha, hov, hc⟩ := accepted_of_compile h
  have hru : ∀ rule ∈ rules, RuleAccepted rule :=
    fun rule hrl => ha.rules rule (hp.mem_iff.mp hrl)
  have hr : ¬ Overlap rules := by
    rw [← nodup_ruleMinutes_iff hru, (hp.flatMap_right ruleMinutes).nodup_iff,
      nodup_ruleMinutes_iff ha.rules]
    exact hov
  have hag : OtherwiseAccepted toVec { v with timeMultipliers := rules } :=
    ⟨ha.tiers, ha.requests, hp.length_eq ▸ ha.count, hru,
      ((hp.map _).nodup_iff).mpr ha.labels, ha.maximum⟩
  obtain ⟨reordered, hs⟩ := compile_isSome hag hr
  obtain ⟨-, -, hsa⟩ := accepted_of_compile hs
  refine ⟨reordered, hs, fun start => ?_⟩
  have hf := find?_eq_of_perm (hp.map compileRule)
    (pairwise_of_not_overlap hr (weekday_lt start) (minute_lt start))
  unfold timeMultiplier
  dsimp only
  rw [hc, hsa, hf]

/-- The table of covered minutes after the loop over the rules. -/
def coveredTable (rules : List TimeBillingMultiplier) : Option (List ℕ) :=
  coverMinutes [] (rules.flatMap ruleMinutes)

theorem mem_coveredTable (h : compile toVec v = some billing) :
    ∃ table, coveredTable v.timeMultipliers = some table ∧ ∀ minute < minutesPerWeek,
      (minute ∈ table ↔ ∃ rule ∈ billing.timeMultipliers,
        rule.matchesTime (minute / minutesPerDay) (minute % minutesPerDay) = true) := by
  obtain ⟨ha, hov, hc⟩ := accepted_of_compile h
  refine ⟨_, coverMinutes_eq_some.mpr ⟨(nodup_ruleMinutes_iff ha.rules).mpr hov,
    fun _ _ => not_mem_nil, rfl⟩, fun minute hm => ?_⟩
  have hd : minute / minutesPerDay < 7 := by
    unfold minutesPerWeek minutesPerDay at *
    omega
  rw [append_nil, mem_reverse, flatMap_ruleMinutes, hc, mem_flatMap]
  constructor
  · rintro ⟨window, hwi, hwa⟩
    obtain ⟨rule, hr, hwi⟩ := mem_flatMap.mp hwi
    obtain ⟨weekday, hw, rfl⟩ := mem_map.mp hwi
    exact ⟨_, mem_map_of_mem hr, (matchesTime_compileRule hd).mpr
      ⟨weekday, hw, (mem_walkedWindow hm).mp hwa⟩⟩
  · rintro ⟨compiled, hme, hma⟩
    obtain ⟨rule, hr, rfl⟩ := mem_map.mp hme
    obtain ⟨weekday, hw, hco⟩ := (matchesTime_compileRule hd).mp hma
    exact ⟨(rule, weekday), mem_flatMap.mpr ⟨rule, hr, mem_map_of_mem hw⟩,
      (mem_walkedWindow hm).mpr hco⟩

/-- Compilation rejects the time rules for overlap exactly when two windows share a minute of the
week. In an accepted policy at most one rule matches an instant, the order of the rules does not
matter, and the table of compilation holds exactly the minutes that match at run time. -/
theorem time_windows_agree (toVec : Json → Option Bytes) (value : AdvancedBilling) :
    (compile toVec value = none ↔ ¬ OtherwiseAccepted toVec value ∨ Overlap value.timeMultipliers) ∧
    ∀ billing, compile toVec value = some billing →
      (∀ startedAt : ℤ, billing.timeMultipliers.Pairwise (fun a b =>
        ¬ (a.matchesTime ((startedAt / 86400 + 3) % 7).toNat (startedAt % 86400 / 60).toNat = true ∧
          b.matchesTime ((startedAt / 86400 + 3) % 7).toNat
            (startedAt % 86400 / 60).toNat = true))) ∧
      (∀ rules : List TimeBillingMultiplier, rules.Perm value.timeMultipliers →
        ∃ reordered, compile toVec { value with timeMultipliers := rules } = some reordered ∧
          ∀ startedAt, reordered.timeMultiplier startedAt = billing.timeMultiplier startedAt) ∧
      ∃ table, coveredTable value.timeMultipliers = some table ∧ ∀ minute < minutesPerWeek,
        (minute ∈ table ↔ ∃ rule ∈ billing.timeMultipliers,
          rule.matchesTime (minute / minutesPerDay) (minute % minutesPerDay) = true) := by
  refine ⟨compile_eq_none, fun billing h => ⟨fun startedAt => ?_,
    fun rules hp => timeMultiplier_perm h hp, mem_coveredTable h⟩⟩
  obtain ⟨-, hov, hc⟩ := accepted_of_compile h
  rw [hc]
  exact pairwise_of_not_overlap hov (weekday_lt startedAt) (minute_lt startedAt)

end Compile

end AiGateway.Billing
