import AiGateway.Routing.RoundRobin

/-! Smooth round robin with a constant eligible set: the choices repeat after as many calls as
the total weight, and every candidate has its weight in each such window. -/
namespace AiGateway.Routing.RoundRobin
open Domain Lib RouteCandidateIdentity List

section Calls
variable (arith : ℤ → ℤ) (candidates : List CompiledCandidate) (eligible : CompiledCandidate → Bool)

/-- The cursor after a number of calls with the same eligible candidates. -/
def cursorAfter (n : ℕ) : Cursor := rounds arith candidates ∅ (replicate n eligible)

def choice (n : ℕ) : Option CompiledCandidate :=
  (smoothRoundRobin arith (cursorAfter arith candidates eligible n) candidates eligible).1

def period : ℕ := ((candidates.filter eligible).map CompiledCandidate.weight).sum

theorem cursorAfter_succ (n : ℕ) : cursorAfter arith candidates eligible (n + 1) =
    (smoothRoundRobin arith (cursorAfter arith candidates eligible n) candidates eligible).2 := by
  unfold cursorAfter rounds
  rw [replicate_succ', run_append]
  rfl

theorem cast_period : (period candidates eligible : ℤ) =
    totalWeight (candidates.filter eligible) := by
  rw [period, Nat.cast_list_sum, map_map]
  rfl

end Calls

/-- A sweep reads the cursor only through its credits. -/
theorem foldl_visit_congr (es : List CompiledCandidate) {s t : Sweep} (hw : s.winner = t.winner)
    (hc : credit s.current = credit t.current) :
    (es.foldl (visit exact) s).winner = (es.foldl (visit exact) t).winner := by
  induction es generalizing s t with
  | nil => exact hw
  | cons c es ih =>
    refine ih ?_ ?_
    · unfold visit
      rw [hw, hc]
    · funext i
      simp only [visit, credit_insert, hc]

theorem values_eq_zero_iff (cur : Cursor) :
    (∀ v ∈ cur.values, v = 0) ↔ ∀ i, credit cur i = 0 := by
  constructor
  · intro hz i
    unfold credit
    cases hg : cur.get i with
    | none => rfl
    | some v => exact hz v ((Table.mem_values_iff _ _).mpr ⟨i, hg⟩)
  · intro hz v hv
    obtain ⟨i, hg⟩ := (Table.mem_values_iff _ _).mp hv
    have hc := hz i
    rwa [credit, hg] at hc

section Constant
variable {candidates : List CompiledCandidate} {eligible : CompiledCandidate → Bool}

theorem choice_congr {cur o : Cursor} (hc : credit cur = credit o) :
    (smoothRoundRobin exact cur candidates eligible).1 =
      (smoothRoundRobin exact o candidates eligible).1 := by
  have hw := foldl_visit_congr (candidates.filter eligible)
    (s := ⟨0, none, cur⟩) (t := ⟨0, none, o⟩) rfl hc
  rw [← sweep_eq_filter, ← sweep_eq_filter] at hw
  unfold smoothRoundRobin
  dsimp only
  rw [hw]
  cases (sweep exact o candidates eligible).winner <;> rfl

variable (hpos : ∀ c ∈ candidates, eligible c = true → 0 < c.weight)
  (hne : ∃ c ∈ candidates, eligible c = true)
include hpos hne in
theorem period_pos : 0 < period candidates eligible := by
  obtain ⟨c, hc, he⟩ := hne
  have hle : c.weight ≤ period candidates eligible :=
    List.le_sum_of_mem (mem_map_of_mem (mem_filter.mpr ⟨hc, he⟩))
  exact Nat.lt_of_lt_of_le (hpos c hc he) hle

variable (hnd : (candidates.map fromCandidate).Nodup)
include hnd hne

/-- The calls are credit rounds of the eligible candidates. -/
theorem exists_play : ∃ win : ℕ → CompiledCandidate,
    (∀ n, choice exact candidates eligible n = some (win n) ∧ win n ∈ candidates) ∧
      Balance.Play (identities (candidates.filter eligible)) (weightOf candidates)
        (fun n => credit (cursorAfter exact candidates eligible n))
        (fun n => fromCandidate (win n)) := by
  have hs : ∀ n, ∃ c, choice exact candidates eligible n = some c := by
    intro n
    by_contra hn
    have hnone := (smoothRoundRobin_eq_none_iff exact _ candidates eligible).mp
      (Option.eq_none_iff_forall_ne_some.mpr (fun c hc => hn ⟨c, hc⟩))
    obtain ⟨c, hc, he⟩ := hne
    exact Bool.false_ne_true ((hnone c hc).symm.trans he)
  choose win hw using hs
  refine ⟨win, fun n => ⟨hw n, (smoothRoundRobin_eligible exact _ (hw n)).1⟩, ?_, ?_, ?_, ?_⟩
  · exact fun _ => rfl
  · intro n
    rw [cursorAfter_succ]
    exact (smoothRoundRobin_settle hnd _ (hw n)).1
  · exact fun n => (smoothRoundRobin_settle hnd _ (hw n)).2.1
  · exact fun n => (smoothRoundRobin_settle hnd _ (hw n)).2.2

include hpos

/-- The credits return to where they were after one period. -/
theorem credit_periodic (n : ℕ) :
    credit (cursorAfter exact candidates eligible (n + period candidates eligible)) =
      credit (cursorAfter exact candidates eligible n) := by
  obtain ⟨win, hw, hplay⟩ := exists_play hne hnd
  induction n with
  | zero =>
    funext i
    rw [Nat.zero_add]
    exact hplay.cycle (fun i _ => weightOf_nonneg i)
      ((cast_period candidates eligible).trans (sum_weightOf hnd filter_sublist).symm)
      (period_pos hpos hne) i
  | succ n ih =>
    have hc : choice exact candidates eligible (n + period candidates eligible) =
        choice exact candidates eligible n := choice_congr ih
    have hn := hplay.step n
    have hp := hplay.step (n + period candidates eligible)
    rw [Nat.add_right_comm, hn, hp, ih]
    have heq : some (win (n + period candidates eligible)) = some (win n) :=
      (hw _).1.symm.trans (hc.trans (hw n).1)
    rw [Option.some.inj heq]

omit hpos in
/-- A candidate has earned its weight in every call and paid the total for every one it won. -/
theorem credit_cursorAfter {c : CompiledCandidate} (hc : c ∈ candidates) (he : eligible c = true)
    (n : ℕ) : credit (cursorAfter exact candidates eligible n) (fromCandidate c) =
      n * c.weight - period candidates eligible *
        Nat.count (fun k => choice exact candidates eligible k = some c) n := by
  obtain ⟨win, hw, hplay⟩ := exists_play hne hnd
  have hwon : ∀ k, fromCandidate (win k) = fromCandidate c ↔
      choice exact candidates eligible k = some c := by
    intro k
    rw [(hw k).1, Option.some.injEq]
    exact ⟨fun h => inj_on_of_nodup_map hnd (hw k).2 hc h, fun h => h ▸ rfl⟩
  have hcr := hplay.credit_eq (mem_identities.mpr ⟨c, mem_filter.mpr ⟨hc, he⟩, rfl⟩) n
  rw [sum_weightOf hnd filter_sublist, ← cast_period, weightOf_fromCandidate hnd hc] at hcr
  simpa only [hwon] using hcr

theorem choice_count (n : ℕ) {c : CompiledCandidate} (hc : c ∈ candidates)
    (he : eligible c = true) :
    Nat.count (fun k => choice exact candidates eligible (n + k) = some c)
      (period candidates eligible) = c.weight := by
  have hp : (0 : ℤ) < period candidates eligible := by exact_mod_cast period_pos hpos hne
  have h₀ := credit_cursorAfter hne hnd hc he n
  have h₁ := credit_cursorAfter hne hnd hc he (n + period candidates eligible)
  rw [credit_periodic hpos hne hnd, h₀, Nat.count_add] at h₁
  push_cast at h₁
  have heq : (period candidates eligible : ℤ) * Nat.count
      (fun k => choice exact candidates eligible (n + k) = some c) (period candidates eligible) =
        period candidates eligible * c.weight := by linarith
  exact_mod_cast mul_left_cancel₀ hp.ne' heq

/-- Without a common divisor of the weights the cursor is at rest only between periods. -/
theorem credit_eq_zero_iff
    (hgcd : ∀ d, (∀ c ∈ candidates, eligible c = true → d ∣ c.weight) → d = 1) (n : ℕ) :
    (∀ i, credit (cursorAfter exact candidates eligible n) i = 0) ↔
      period candidates eligible ∣ n := by
  constructor
  · intro hz
    obtain ⟨d, m, hco, hd, hm⟩ := Nat.exists_coprime (period candidates eligible) n
    have hg : 0 < Nat.gcd (period candidates eligible) n :=
      Nat.gcd_pos_of_pos_left _ (period_pos hpos hne)
    have hone : d = 1 := by
      refine hgcd d (fun c hc he => ?_)
      have hcr := credit_cursorAfter hne hnd hc he n
      rw [hz] at hcr
      have hdvd : period candidates eligible ∣ n * c.weight :=
        ⟨_, by exact_mod_cast (sub_eq_zero.mp hcr.symm)⟩
      generalize Nat.gcd (period candidates eligible) n = g at hd hm hg
      rw [hd, hm, Nat.mul_right_comm] at hdvd
      exact hco.dvd_of_dvd_mul_left (Nat.dvd_of_mul_dvd_mul_right hg hdvd)
    rw [hone, Nat.one_mul] at hd
    exact hd ▸ Nat.gcd_dvd_right _ n
  · rintro ⟨q, rfl⟩ i
    induction q with
    | zero => rfl
    | succ q ih => rw [Nat.mul_succ, credit_periodic hpos hne hnd, ih]

end Constant

/-- With the eligible set constant and its weights positive: the choices have the total weight as
a period, every candidate has its weight in each window of that length, and all cursor values are
zero exactly between periods when the weights have no common divisor. The arithmetic is any that
is exact within the bound on the cursor. -/
theorem round_robin_periodic (arith : ℤ → ℤ) (candidates : List CompiledCandidate)
    (eligible : CompiledCandidate → Bool) (hnodup : (candidates.map fromCandidate).Nodup)
    (hinert : ∀ x, |x| ≤ creditBound candidates → arith x = x)
    (hpos : ∀ c ∈ candidates, eligible c = true → 0 < c.weight)
    (hne : ∃ c ∈ candidates, eligible c = true) :
    (∀ n, choice arith candidates eligible (n + period candidates eligible) =
      choice arith candidates eligible n) ∧
    (∀ n, ∀ c ∈ candidates, eligible c = true →
      Nat.count (fun k => choice arith candidates eligible (n + k) = some c)
        (period candidates eligible) = c.weight) ∧
    ((∀ d, (∀ c ∈ candidates, eligible c = true → d ∣ c.weight) → d = 1) → ∀ n,
      (∀ value ∈ (cursorAfter arith candidates eligible n).values, value = 0) ↔
        period candidates eligible ∣ n) := by
  have hcursor : ∀ n, cursorAfter arith candidates eligible n =
      cursorAfter exact candidates eligible n :=
    fun n => rounds_eq_exact hinert hnodup balanced_empty _
  have hchoice : choice arith candidates eligible = choice exact candidates eligible := by
    funext n
    have hb : Balanced candidates (cursorAfter exact candidates eligible n) :=
      rounds_balanced hnodup balanced_empty _
    unfold choice
    rw [hcursor, smoothRoundRobin_eq_exact hinert hnodup hb]
  rw [hchoice]
  refine ⟨fun n => choice_congr (credit_periodic hpos hne hnodup n),
    fun n c hc he => choice_count hpos hne hnodup n hc he, fun hgcd n => ?_⟩
  rw [hcursor, values_eq_zero_iff]
  exact credit_eq_zero_iff hpos hne hnodup hgcd n

/-- Weights 2 and 1 in 64-bit arithmetic. -/
theorem round_robin_periodic_two_channels :
    let candidates : List CompiledCandidate :=
      [⟨0, 0, plainChannel 1, "large", 2⟩, ⟨1, 1, plainChannel 2, "large", 1⟩]
    choice wrapI64 candidates (fun _ => true) (5 + 3) =
      choice wrapI64 candidates (fun _ => true) 5 := by
  intro candidates
  exact (round_robin_periodic wrapI64 candidates (fun _ => true) (by decide)
    (fun _ hx => wrapI64_of_abs_le (by decide) hx) (by decide) (by decide)).1 5

end AiGateway.Routing.RoundRobin
