import AiGateway.Lib.Balance
import AiGateway.Lib.Run
import AiGateway.Routing.Candidates

/-! Smooth weighted round robin over the eligible candidates of a tier. The cursor
arithmetic is a parameter: the exact integers, or the 64-bit integers of the source. -/
namespace AiGateway.Routing.RoundRobin
open Domain Lib RouteCandidateIdentity List Table

abbrev Cursor := Table RouteCandidateIdentity ℤ

/-- Two's-complement wrapping of the 64-bit signed integers. -/
def wrapI64 (x : ℤ) : ℤ := Int.bmod x (2 ^ 64)

/-- The loop state: total weight seen, the best candidate with its value, the cursor. -/
structure Sweep where
  total : ℤ
  winner : Option (CompiledCandidate × ℤ)
  current : Cursor

def credit (current : Cursor) (identity : RouteCandidateIdentity) : ℤ :=
  (current.get identity).getD 0

section Loop
variable (arith : ℤ → ℤ)

def visit (s : Sweep) (candidate : CompiledCandidate) : Sweep :=
  let value := arith (credit s.current (fromCandidate candidate) + candidate.weight)
  { total := arith (s.total + candidate.weight)
    winner := if s.winner.all (fun best => decide (best.2 < value)) then some (candidate, value)
      else s.winner
    current := s.current.insert (fromCandidate candidate) value }

def sweep (current : Cursor) (candidates : List CompiledCandidate)
    (eligible : CompiledCandidate → Bool) : Sweep :=
  candidates.foldl (fun s candidate => if eligible candidate then visit arith s candidate else s)
    ⟨0, none, current⟩

def smoothRoundRobin (current : Cursor) (candidates : List CompiledCandidate)
    (eligible : CompiledCandidate → Bool) : Option CompiledCandidate × Cursor :=
  let s := sweep arith current candidates eligible
  match s.winner with
  | none => (none, s.current)
  | some (winner, _) =>
    let identity := fromCandidate winner
    (some winner, s.current.insert identity (arith (credit s.current identity - s.total)))

variable {candidates : List CompiledCandidate} {el : CompiledCandidate → Bool}
  {win : CompiledCandidate} {cur : Cursor} {value : ℤ}

theorem smoothRoundRobin_of_none (h : (sweep arith cur candidates el).winner = none) :
    smoothRoundRobin arith cur candidates el = (none, (sweep arith cur candidates el).current) := by
  simp only [smoothRoundRobin, h]

theorem smoothRoundRobin_of_some
    (h : (sweep arith cur candidates el).winner = some (win, value)) :
    smoothRoundRobin arith cur candidates el =
      (some win, (sweep arith cur candidates el).current.insert (fromCandidate win)
        (arith (credit (sweep arith cur candidates el).current (fromCandidate win) -
          (sweep arith cur candidates el).total))) := by
  simp only [smoothRoundRobin, h]

theorem sweep_eq_filter (cur : Cursor) (candidates : List CompiledCandidate)
    (el : CompiledCandidate → Bool) :
    sweep arith cur candidates el = (candidates.filter el).foldl (visit arith) ⟨0, none, cur⟩ :=
  foldl_filter.symm

theorem visit_winner (s : Sweep) (candidate : CompiledCandidate) :
    (visit arith s candidate).winner.map Prod.fst = some candidate ∨
      (s.winner ≠ none ∧ (visit arith s candidate).winner = s.winner) := by
  unfold visit
  dsimp only
  split_ifs with h
  · exact .inl rfl
  · refine .inr ⟨?_, rfl⟩
    rintro hn
    simp [hn] at h

theorem foldl_visit_winner (candidates : List CompiledCandidate) (s : Sweep) :
    (candidates.foldl (visit arith) s).winner = none ↔ candidates = [] ∧ s.winner = none := by
  induction candidates generalizing s with
  | nil => simp
  | cons candidate rest ih =>
    rw [foldl_cons, ih]
    rcases visit_winner arith s candidate with h | ⟨hn, h⟩
    · cases hw : (visit arith s candidate).winner with
      | none => simp [hw] at h
      | some w => simp
    · simp [h, hn]

theorem foldl_visit_winner_mem (candidates : List CompiledCandidate) (s : Sweep)
    (h : (candidates.foldl (visit arith) s).winner = some (win, value)) :
    win ∈ candidates ∨ s.winner = some (win, value) := by
  induction candidates generalizing s with
  | nil => exact .inr h
  | cons candidate rest ih =>
    rcases ih _ h with hm | hw
    · exact .inl (mem_cons_of_mem _ hm)
    · rcases visit_winner arith s candidate with hc | ⟨-, hc⟩
      · rw [hw] at hc
        exact .inl (Option.some.inj hc ▸ mem_cons_self)
      · exact .inr (hc ▸ hw)

/-- Whatever the cursor holds, a call selects exactly when some candidate is eligible. -/
theorem smoothRoundRobin_eq_none_iff (cur : Cursor) (candidates : List CompiledCandidate)
    (el : CompiledCandidate → Bool) :
    (smoothRoundRobin arith cur candidates el).1 = none ↔
      ∀ candidate ∈ candidates, el candidate = false := by
  have hw := foldl_visit_winner arith (candidates.filter el) ⟨0, none, cur⟩
  rw [← sweep_eq_filter] at hw
  cases h : (sweep arith cur candidates el).winner with
  | none =>
    have hn := (hw.mp h).1
    rw [smoothRoundRobin_of_none arith h]
    simpa [filter_eq_nil_iff] using hn
  | some best =>
    have hne : candidates.filter el ≠ [] := fun hn => by simp [hw.mpr ⟨hn, rfl⟩] at h
    rw [smoothRoundRobin_of_some arith h]
    simpa [filter_eq_nil_iff] using hne

theorem smoothRoundRobin_eligible (cur : Cursor)
    (h : (smoothRoundRobin arith cur candidates el).1 = some win) :
    win ∈ candidates ∧ el win = true := by
  cases hw : (sweep arith cur candidates el).winner with
  | none =>
    rw [smoothRoundRobin_of_none arith hw] at h
    cases h
  | some best =>
    rw [smoothRoundRobin_of_some arith hw] at h
    cases h
    rw [sweep_eq_filter] at hw
    rcases foldl_visit_winner_mem arith _ _ hw with hm | hn
    · exact mem_filter.mp hm
    · cases hn

theorem credit_insert (cur : Cursor) (i o : RouteCandidateIdentity) (value : ℤ) :
    credit (cur.insert i value) o =
      if o = i then value else credit cur o := by
  unfold credit
  rw [get_insert]
  split_ifs <;> rfl

theorem foldl_visit_credit_of_notMem (candidates : List CompiledCandidate) (s : Sweep)
    {i : RouteCandidateIdentity} (h : i ∉ candidates.map fromCandidate) :
    (candidates.foldl (visit arith) s).current.get i = s.current.get i := by
  induction candidates generalizing s with
  | nil => rfl
  | cons candidate rest ih =>
    rw [map_cons, mem_cons, not_or] at h
    rw [foldl_cons, ih _ h.2]
    exact get_insert_ne _ _ h.1

end Loop

/-- Cursor arithmetic without overflow. -/
def exact (x : ℤ) : ℤ := x

section Exact
variable {candidates : List CompiledCandidate} {el : CompiledCandidate → Bool}

def totalWeight (candidates : List CompiledCandidate) : ℤ :=
  (candidates.map (fun candidate => (candidate.weight : ℤ))).sum

def weightOf (candidates : List CompiledCandidate) (identity : RouteCandidateIdentity) : ℤ :=
  totalWeight (candidates.filter (fun candidate => decide (fromCandidate candidate = identity)))

def identities (candidates : List CompiledCandidate) : Finset RouteCandidateIdentity :=
  (candidates.map fromCandidate).toFinset

theorem totalWeight_nonneg (candidates : List CompiledCandidate) : 0 ≤ totalWeight candidates := by
  apply sum_nonneg
  intro w hw
  obtain ⟨c, -, rfl⟩ := mem_map.mp hw
  exact Int.natCast_nonneg _

theorem mem_identities {i : RouteCandidateIdentity} :
    i ∈ identities candidates ↔ ∃ c ∈ candidates, fromCandidate c = i := by
  simp [identities]

theorem foldl_visit_total (es : List CompiledCandidate) (s : Sweep) :
    (es.foldl (visit exact) s).total = s.total + totalWeight es := by
  induction es generalizing s with
  | nil => simp [totalWeight]
  | cons c es ih =>
    rw [foldl_cons, ih]
    simp only [visit, exact, totalWeight, map_cons, sum_cons]
    ring

variable {es : List CompiledCandidate} {c : CompiledCandidate} {cur : Cursor}

theorem foldl_visit_credit (s : Sweep) (hnd : (es.map fromCandidate).Nodup) (hc : c ∈ es) :
    credit (es.foldl (visit exact) s).current (fromCandidate c) =
      credit s.current (fromCandidate c) + c.weight := by
  induction es generalizing s with
  | nil => cases hc
  | cons a es ih =>
    rw [map_cons, nodup_cons] at hnd
    rw [foldl_cons]
    rcases mem_cons.mp hc with rfl | hc
    · have hk := foldl_visit_credit_of_notMem exact es (visit exact s c) hnd.1
      unfold credit at hk ⊢
      rw [hk]
      simp [visit, credit, exact]
    · have hne : fromCandidate c ≠ fromCandidate a := fun h =>
        hnd.1 (h ▸ mem_map_of_mem hc)
      rw [ih (visit exact s a) hnd.2 hc]
      simp [visit, credit_insert, hne]

theorem visit_best (s : Sweep) (c : CompiledCandidate) :
    ∃ best, (visit exact s c).winner = some best ∧
      credit s.current (fromCandidate c) + c.weight ≤ best.2 ∧ (∀ b ∈ s.winner, b.2 ≤ best.2) ∧
      (best = (c, credit s.current (fromCandidate c) + c.weight) ∨ s.winner = some best) := by
  cases hw : s.winner with
  | none => exact ⟨_, by simp only [visit, hw, Option.all_none, if_true]; rfl, le_rfl, by simp, .inl rfl⟩
  | some b =>
    by_cases hlt : b.2 < credit s.current (fromCandidate c) + c.weight
    · refine ⟨_, ?_, le_rfl, ?_, .inl rfl⟩
      · simp [visit, hw, exact, hlt]
      · rintro b' hb'
        cases hb'
        exact hlt.le
    · refine ⟨b, ?_, not_lt.mp hlt, ?_, .inr rfl⟩
      · simp [visit, hw, exact, hlt]
      · rintro b' hb'
        cases hb'
        exact le_rfl

variable {win : CompiledCandidate} {arith : ℤ → ℤ}

/-- The winner holds the largest value the sweep has seen. -/
theorem foldl_visit_max (s : Sweep) (hnd : (es.map fromCandidate).Nodup) {value : ℤ}
    (h : (es.foldl (visit exact) s).winner = some (win, value)) :
    (∀ c ∈ es, credit s.current (fromCandidate c) + c.weight ≤ value) ∧
      (∀ best ∈ s.winner, best.2 ≤ value) ∧
      (win ∈ es ∧ value = credit s.current (fromCandidate win) + win.weight ∨
        s.winner = some (win, value)) := by
  induction es generalizing s with
  | nil =>
    refine ⟨by simp, ?_, .inr h⟩
    rintro best hbe
    rw [Option.mem_def, show s.winner = some (win, value) from h] at hbe
    exact (Option.some.inj hbe ▸ le_rfl)
  | cons a es ih =>
    rw [map_cons, nodup_cons] at hnd
    obtain ⟨hr, hbe, hso⟩ := ih (visit exact s a) hnd.2 h
    have hot : ∀ c ∈ es, credit (visit exact s a).current (fromCandidate c) =
        credit s.current (fromCandidate c) := by
      intro c hc
      have hne : fromCandidate c ≠ fromCandidate a := fun h =>
        hnd.1 (h ▸ mem_map_of_mem hc)
      simp [visit, credit_insert, hne]
    obtain ⟨best, hn, hva, hp, hf⟩ := visit_best s a
    have hle := hbe best hn
    refine ⟨?_, fun b hb => (hp b hb).trans hle, ?_⟩
    · intro c hc
      rcases mem_cons.mp hc with rfl | hc
      · exact hva.trans hle
      · exact hot c hc ▸ hr c hc
    · rcases hso with ⟨hm, hv⟩ | hl
      · exact .inl ⟨mem_cons_of_mem _ hm, hot win hm ▸ hv⟩
      · rw [hn, Option.some.injEq] at hl
        subst hl
        rcases hf with hs | hol
        · rw [Prod.mk.injEq] at hs
          obtain ⟨rfl, hv⟩ := hs
          exact .inl ⟨mem_cons_self, hv⟩
        · exact .inr hol

section
variable (hnd : (candidates.map fromCandidate).Nodup)
include hnd

theorem weightOf_fromCandidate (hc : c ∈ candidates) :
    weightOf candidates (fromCandidate c) = c.weight := by
  induction candidates with
  | nil => cases hc
  | cons a rest ih =>
    rw [map_cons, nodup_cons] at hnd
    unfold weightOf
    rcases mem_cons.mp hc with rfl | hc
    · have hn : rest.filter (fun x => decide (fromCandidate x = fromCandidate c)) = [] := by
        rw [filter_eq_nil_iff]
        intro x hx heq
        exact hnd.1 (of_decide_eq_true heq ▸ mem_map_of_mem hx)
      simp [hn, totalWeight]
    · have hne : fromCandidate a ≠ fromCandidate c := fun h =>
        hnd.1 (h ▸ mem_map_of_mem hc)
      rw [filter_cons_of_neg (by simpa using hne)]
      exact ih hnd.2 hc

theorem sum_weightOf (hes : es.Sublist candidates) :
    ∑ i ∈ identities es, weightOf candidates i = totalWeight es := by
  unfold identities totalWeight
  rw [sum_toFinset _ (hnd.sublist (hes.map _)), map_map]
  congr 1
  apply map_congr_left
  intro c hc
  exact weightOf_fromCandidate hnd (hes.subset hc)

theorem credit_foldl_visit (hes : es.Sublist candidates) (s : Sweep) (i : RouteCandidateIdentity) :
    credit (es.foldl (visit exact) s).current i =
      Balance.earn (weightOf candidates) (identities es) (credit s.current) i := by
  unfold Balance.earn
  split_ifs with hm
  · obtain ⟨c, hc, rfl⟩ := mem_identities.mp hm
    rw [foldl_visit_credit s (hnd.sublist (hes.map _)) hc,
      weightOf_fromCandidate hnd (hes.subset hc)]
  · have hk := foldl_visit_credit_of_notMem exact es s (by simpa [identities] using hm)
    rw [add_zero]
    exact congrArg (Option.getD · 0) hk

/-- A call is one credit round whose winner holds the most credit. -/
theorem smoothRoundRobin_settle (cur : Cursor)
    (h : (smoothRoundRobin exact cur candidates el).1 = some win) :
    let earning := identities (candidates.filter el)
    let ear := Balance.earn (weightOf candidates) earning (credit cur)
    credit (smoothRoundRobin exact cur candidates el).2 =
        Balance.settle (weightOf candidates) earning (fromCandidate win) (credit cur) ∧
      fromCandidate win ∈ earning ∧
      ∀ i ∈ earning, ear i ≤ ear (fromCandidate win) := by
  intro earning ear
  have hs : (candidates.filter el).Sublist candidates := filter_sublist
  have hes : ((candidates.filter el).map fromCandidate).Nodup := hnd.sublist (hs.map _)
  have he : ∀ c ∈ candidates.filter el,
      ear (fromCandidate c) = credit cur (fromCandidate c) + c.weight := fun c hc =>
    (credit_foldl_visit hnd hs ⟨0, none, cur⟩ _).symm.trans (foldl_visit_credit _ hes hc)
  cases hw : (sweep exact cur candidates el).winner with
  | none =>
    rw [smoothRoundRobin_of_none exact hw] at h
    cases h
  | some best =>
    obtain ⟨c, value⟩ := best
    rw [smoothRoundRobin_of_some exact hw] at h ⊢
    obtain rfl : c = win := Option.some.inj h
    rw [sweep_eq_filter] at hw ⊢
    obtain ⟨hm, -, hse | hn⟩ := foldl_visit_max ⟨0, none, cur⟩ hes hw
    · refine ⟨?_, mem_identities.mpr ⟨c, hse.1, rfl⟩, ?_⟩
      · funext i
        rw [credit_insert, foldl_visit_total, credit_foldl_visit hnd hs,
          credit_foldl_visit hnd hs, ← sum_weightOf hnd hs, zero_add]
        unfold Balance.settle exact
        split_ifs with heq
        · rw [heq]
        · exact (sub_zero _).symm
      · intro i hme
        obtain ⟨c', hc', rfl⟩ := mem_identities.mp hme
        rw [he c' hc', he c hse.1, ← hse.2]
        exact hm c' hc'
    · cases hn

end

theorem smoothRoundRobin_none (h : (smoothRoundRobin exact cur candidates el).1 = none) :
    (smoothRoundRobin exact cur candidates el).2 = cur := by
  have hn := (smoothRoundRobin_eq_none_iff exact cur candidates el).mp h
  have hni : candidates.filter el = [] := filter_eq_nil_iff.mpr (by simpa using hn)
  unfold smoothRoundRobin
  rw [sweep_eq_filter, hni]
  rfl

/-- The cursor between two calls: credits of the tier's candidates that sum to zero and
stay bounded. -/
structure Balanced (candidates : List CompiledCandidate) (current : Cursor) : Prop where
  keys : ∀ identity ∈ current.keys, identity ∈ identities candidates
  sum : ∑ identity ∈ identities candidates, credit current identity = 0
  bounded : Balance.Bounded (identities candidates) (weightOf candidates) (credit current)

theorem weightOf_nonneg (i : RouteCandidateIdentity) : 0 ≤ weightOf candidates i :=
  totalWeight_nonneg _

theorem balanced_empty : Balanced candidates ∅ := by
  have hz : credit (∅ : Cursor) = fun _ => 0 := by
    funext i
    simp [credit]
  refine ⟨?_, ?_, ?_⟩
  · intro i hm
    simp [mem_keys_iff] at hm
  · simp [hz]
  · exact hz ▸ Balance.bounded_zero (fun i _ => weightOf_nonneg i)

theorem smoothRoundRobin_keys (cur : Cursor)
    (hke : ∀ i ∈ cur.keys, i ∈ identities candidates) :
    ∀ i ∈ (smoothRoundRobin exact cur candidates el).2.keys, i ∈ identities candidates := by
  intro i hm
  by_contra hne
  have hes : i ∉ (candidates.filter el).map fromCandidate := fun h => by
    obtain ⟨c, hc, rfl⟩ := mem_map.mp h
    exact hne (mem_identities.mpr ⟨c, (mem_filter.mp hc).1, rfl⟩)
  have hk := foldl_visit_credit_of_notMem exact _ ⟨0, none, cur⟩ hes
  rw [← sweep_eq_filter] at hk
  have hg : (smoothRoundRobin exact cur candidates el).2.get i = cur.get i := by
    cases hw : (sweep exact cur candidates el).winner with
    | none => rwa [smoothRoundRobin_of_none exact hw]
    | some best =>
      have hs := smoothRoundRobin_of_some exact hw
      have hin := (smoothRoundRobin_eligible exact cur (congrArg Prod.fst hs)).1
      rw [hs, get_insert_ne, hk]
      rintro rfl
      exact hne (mem_identities.mpr ⟨_, hin, rfl⟩)
  obtain ⟨v, hv⟩ := (mem_keys_iff _ _).mp hm
  exact hne (hke i ((mem_keys_iff _ _).mpr ⟨v, hg ▸ hv⟩))

theorem smoothRoundRobin_balanced (hnd : (candidates.map fromCandidate).Nodup)
    (hs : Balanced candidates cur) :
    Balanced candidates (smoothRoundRobin exact cur candidates el).2 := by
  cases hw : (smoothRoundRobin exact cur candidates el).1 with
  | none => rwa [smoothRoundRobin_none hw]
  | some win =>
    obtain ⟨hcr, hm, hma⟩ := smoothRoundRobin_settle hnd cur hw
    have hsu : identities (candidates.filter el) ⊆ identities candidates := by
      intro i h
      obtain ⟨c, hc, hid⟩ := mem_identities.mp h
      exact mem_identities.mpr ⟨c, (mem_filter.mp hc).1, hid⟩
    refine ⟨smoothRoundRobin_keys cur hs.keys, ?_, ?_⟩
    · rw [hcr, Balance.sum_settle hsu (hsu hm)]
      exact hs.sum
    · rw [hcr]
      exact hs.bounded.round (fun i _ => weightOf_nonneg i) hsu hm hma

theorem card_identities (hnd : (candidates.map fromCandidate).Nodup) :
    (identities candidates).card = candidates.length := by
  rw [identities, toFinset_card_of_nodup hnd, length_map]

/-- The bound on every value the cursor arithmetic produces. -/
def creditBound (candidates : List CompiledCandidate) : ℤ :=
  2 * candidates.length * totalWeight candidates

theorem totalWeight_le_creditBound : totalWeight candidates ≤ creditBound candidates := by
  have hw := totalWeight_nonneg candidates
  unfold creditBound
  cases candidates with
  | nil => simp [totalWeight]
  | cons c rest =>
    rw [length_cons]
    push_cast
    nlinarith [Int.natCast_nonneg rest.length]

theorem Balanced.abs_credit_le (hnd : (candidates.map fromCandidate).Nodup)
    (hs : Balanced candidates cur) (hc : c ∈ candidates) :
    |credit cur (fromCandidate c)| ≤ totalWeight candidates * (candidates.length - 1) := by
  have hle := hs.bounded.abs_credit_le hs.sum (mem_identities.mpr ⟨c, hc, rfl⟩)
  rwa [sum_weightOf hnd (List.Sublist.refl _), card_identities hnd] at hle

theorem Balanced.values_sum (hs : Balanced candidates cur) : cur.values.sum = 0 := by
  have hsu : ∑ i ∈ cur.keys.toFinset, credit cur i = ∑ i ∈ identities candidates, credit cur i := by
    apply Finset.sum_subset (fun i h => hs.keys i (mem_toFinset.mp h))
    intro i _ hno
    have hn : cur.get i = none := by
      by_contra hso
      obtain ⟨v, hv⟩ := Option.ne_none_iff_exists'.mp hso
      exact hno (mem_toFinset.mpr ((mem_keys_iff _ _).mpr ⟨v, hv⟩))
    simp [credit, hn]
  rw [values_eq_map_keys cur 0, ← sum_toFinset _ cur.keys_nodup]
  exact hsu.trans hs.sum

theorem totalWeight_sublist (hes : es.Sublist candidates) :
    totalWeight es ≤ totalWeight candidates := by
  apply List.Sublist.sum_le_sum (hes.map _)
  intro w hw
  obtain ⟨c, -, rfl⟩ := mem_map.mp hw
  exact Int.natCast_nonneg _

theorem weight_le_totalWeight (hc : c ∈ candidates) : (c.weight : ℤ) ≤ totalWeight candidates := by
  have hle := totalWeight_sublist (singleton_sublist.mpr hc)
  simpa [totalWeight] using hle

/-- Values the arithmetic leaves alone are swept as by exact arithmetic. -/
theorem foldl_visit_eq_exact {bound : ℤ} (harith : ∀ x, |x| ≤ bound → arith x = x) (s : Sweep)
    (hnd : (es.map fromCandidate).Nodup) (hn : 0 ≤ s.total)
    (ht : s.total + totalWeight es ≤ bound)
    (hcr : ∀ c ∈ es, |credit s.current (fromCandidate c) + c.weight| ≤ bound) :
    es.foldl (visit arith) s = es.foldl (visit exact) s := by
  induction es generalizing s with
  | nil => rfl
  | cons a es ih =>
    rw [map_cons, nodup_cons] at hnd
    have hsp : totalWeight (a :: es) = a.weight + totalWeight es := rfl
    have hr := totalWeight_nonneg es
    have hvi : visit arith s a = visit exact s a := by
      have hv := harith _ (hcr a mem_cons_self)
      have hsu : arith (s.total + a.weight) = s.total + a.weight := by
        apply harith
        rw [abs_of_nonneg (by omega)]
        omega
      unfold visit
      rw [hv, hsu]
      rfl
    rw [foldl_cons, hvi]
    apply ih _ hnd.2
    · show 0 ≤ s.total + a.weight
      omega
    · show s.total + a.weight + totalWeight es ≤ bound
      omega
    · intro c hc
      have hne : fromCandidate c ≠ fromCandidate a := fun h =>
        hnd.1 (h ▸ mem_map_of_mem hc)
      have hs : credit (visit exact s a).current (fromCandidate c) =
          credit s.current (fromCandidate c) := by simp [visit, credit_insert, hne]
      rw [hs]
      exact hcr c (mem_cons_of_mem _ hc)

theorem smoothRoundRobin_eq_exact (harith : ∀ x, |x| ≤ creditBound candidates → arith x = x)
    (hnd : (candidates.map fromCandidate).Nodup) (hs : Balanced candidates cur) :
    smoothRoundRobin arith cur candidates el = smoothRoundRobin exact cur candidates el := by
  have hsu : (candidates.filter el).Sublist candidates := filter_sublist
  have hw := totalWeight_nonneg candidates
  have hsw : sweep arith cur candidates el = sweep exact cur candidates el := by
    rw [sweep_eq_filter, sweep_eq_filter]
    apply foldl_visit_eq_exact harith _ (hnd.sublist (hsu.map _)) le_rfl
    · rw [zero_add]
      exact (totalWeight_sublist hsu).trans totalWeight_le_creditBound
    · intro c hc
      have hm := hsu.subset hc
      have hc := hs.abs_credit_le hnd hm
      have hon := weight_le_totalWeight hm
      have ht := abs_add_le (credit cur (fromCandidate c)) c.weight
      rw [Nat.abs_cast] at ht
      unfold creditBound
      nlinarith [mul_nonneg (Int.natCast_nonneg candidates.length) hw]
  have hn : Balanced candidates (smoothRoundRobin exact cur candidates el).2 :=
    smoothRoundRobin_balanced hnd hs
  cases hwi : (sweep exact cur candidates el).winner with
  | none =>
    rw [smoothRoundRobin_of_none exact hwi, smoothRoundRobin_of_none arith (hsw ▸ hwi), hsw]
  | some best =>
    have hst := smoothRoundRobin_of_some exact hwi
    have hin := (smoothRoundRobin_eligible exact cur (congrArg Prod.fst hst)).1
    have hp := hn.abs_credit_le hnd hin
    rw [hst, credit_insert, if_pos rfl] at hp
    rw [hst, smoothRoundRobin_of_some arith (hsw ▸ hwi), hsw, harith]
    · rfl
    · refine hp.trans ?_
      unfold creditBound
      nlinarith [mul_nonneg (Int.natCast_nonneg candidates.length) hw]

end Exact

/-- The cursor after a list of calls, each with its own eligible candidates. -/
def rounds (arith : ℤ → ℤ) (candidates : List CompiledCandidate) :
    Cursor → List (CompiledCandidate → Bool) → Cursor :=
  run (fun current eligible => (smoothRoundRobin arith current candidates eligible).2)

/-- The weight the candidate is served with: the eligible total of every call it wins. -/
def served (arith : ℤ → ℤ) (candidates : List CompiledCandidate) (c : CompiledCandidate) :
    Cursor → List (CompiledCandidate → Bool) → ℤ
  | _, [] => 0
  | current, eligible :: calls =>
    let call := smoothRoundRobin arith current candidates eligible
    (if call.1 = some c then totalWeight (candidates.filter eligible) else 0) +
      served arith candidates c call.2 calls

/-- What the cursor promises after any calls: its values sum to zero, none exceeds the
bound, and a candidate that stays eligible is served its weight per call up to the bound. -/
structure Fair (arith : ℤ → ℤ) (candidates : List CompiledCandidate)
    (calls : List (CompiledCandidate → Bool)) : Prop where
  sum : (rounds arith candidates ∅ calls).values.sum = 0
  bound : ∀ value ∈ (rounds arith candidates ∅ calls).values, |value| ≤ creditBound candidates
  share : ∀ c ∈ candidates, ∀ window : List (CompiledCandidate → Bool),
    (∀ eligible ∈ window, eligible c = true) → window.length * c.weight -
        served arith candidates c (rounds arith candidates ∅ calls) window ≤ creditBound candidates

section Rounds
variable {candidates : List CompiledCandidate} {cur : Cursor} {arith : ℤ → ℤ}

theorem rounds_balanced (hnd : (candidates.map fromCandidate).Nodup)
    (hs : Balanced candidates cur) (calls : List (CompiledCandidate → Bool)) :
    Balanced candidates (rounds exact candidates cur calls) :=
  run_invariant (fun _ _ h => smoothRoundRobin_balanced hnd h) hs calls

variable {c : CompiledCandidate}

section
variable (hnd : (candidates.map fromCandidate).Nodup)
include hnd

/-- One call moves an eligible candidate by its weight, less the total if it wins. -/
theorem credit_smoothRoundRobin (cur : Cursor) {el : CompiledCandidate → Bool}
    (hc : c ∈ candidates) (he : el c = true) :
    credit (smoothRoundRobin exact cur candidates el).2 (fromCandidate c) =
      credit cur (fromCandidate c) + c.weight -
        if (smoothRoundRobin exact cur candidates el).1 = some c then
          totalWeight (candidates.filter el) else 0 := by
  have hm : c ∈ candidates.filter el := mem_filter.mpr ⟨hc, he⟩
  cases hw : (smoothRoundRobin exact cur candidates el).1 with
  | none =>
    have hn := (smoothRoundRobin_eq_none_iff exact cur candidates el).mp hw c hc
    simp [he] at hn
  | some win =>
    have hin := (smoothRoundRobin_eligible exact cur hw).1
    have hs : some win = some c ↔ fromCandidate c = fromCandidate win := by
      rw [Option.some.injEq]
      exact ⟨fun h => h ▸ rfl, fun h => (inj_on_of_nodup_map hnd hc hin h).symm⟩
    rw [(smoothRoundRobin_settle hnd cur hw).1, ← sum_weightOf hnd filter_sublist]
    unfold Balance.settle Balance.earn
    simp only [mem_identities.mpr ⟨c, hm, rfl⟩, if_true, weightOf_fromCandidate hnd hc, hs]

theorem credit_rounds (cur : Cursor) (hc : c ∈ candidates) (window : List (CompiledCandidate → Bool))
    (hw : ∀ el ∈ window, el c = true) :
    credit (rounds exact candidates cur window) (fromCandidate c) =
      credit cur (fromCandidate c) + window.length * c.weight -
        served exact candidates c cur window := by
  induction window generalizing cur with
  | nil => simp [rounds, served]
  | cons el window ih =>
    have hca := credit_smoothRoundRobin hnd cur hc (hw el mem_cons_self)
    have hr := ih (smoothRoundRobin exact cur candidates el).2
      (fun e he => hw e (mem_cons_of_mem _ he))
    rw [hca] at hr
    simp only [rounds, run_cons, served, length_cons] at hr ⊢
    rw [hr]
    push_cast
    ring

theorem fair_exact (calls : List (CompiledCandidate → Bool)) : Fair exact candidates calls := by
  have hs := rounds_balanced hnd balanced_empty calls
  generalize hcu : rounds exact candidates ∅ calls = cursor at hs
  have hw := totalWeight_nonneg candidates
  have hn := mul_nonneg (Int.natCast_nonneg candidates.length) hw
  refine ⟨?_, ?_, ?_⟩ <;> rw [hcu]
  · exact hs.values_sum
  · intro value hv
    obtain ⟨i, hg⟩ := (mem_values_iff _ _).mp hv
    have hk := hs.keys i ((mem_keys_iff _ _).mpr ⟨value, hg⟩)
    obtain ⟨c, hc, rfl⟩ := mem_identities.mp hk
    have hle := hs.abs_credit_le hnd hc
    simp only [credit, hg, Option.getD_some] at hle
    unfold creditBound
    linarith
  · intro c hc window he
    have hr := credit_rounds hnd cursor hc window he
    have hen := (rounds_balanced hnd hs window).abs_credit_le hnd hc
    have hst := hs.abs_credit_le hnd hc
    unfold creditBound
    linarith [(abs_le.mp hen).2, (abs_le.mp hst).1]

end

section
variable (harith : ∀ x, |x| ≤ creditBound candidates → arith x = x)
  (hnd : (candidates.map fromCandidate).Nodup)
include harith hnd

theorem rounds_eq_exact (hs : Balanced candidates cur) (calls : List (CompiledCandidate → Bool)) :
    rounds arith candidates cur calls = rounds exact candidates cur calls := by
  induction calls generalizing cur with
  | nil => rfl
  | cons el calls ih =>
    simp only [rounds, run_cons] at ih ⊢
    rw [smoothRoundRobin_eq_exact harith hnd hs]
    exact ih (smoothRoundRobin_balanced hnd hs)

theorem served_eq_exact (hs : Balanced candidates cur) (c : CompiledCandidate)
    (calls : List (CompiledCandidate → Bool)) :
    served arith candidates c cur calls = served exact candidates c cur calls := by
  induction calls generalizing cur with
  | nil => rfl
  | cons el calls ih =>
    simp only [served]
    rw [smoothRoundRobin_eq_exact harith hnd hs, ih (smoothRoundRobin_balanced hnd hs)]

theorem fair_of_inert (calls : List (CompiledCandidate → Bool)) :
    Fair arith candidates calls := by
  have hf := fair_exact hnd calls
  have hr := rounds_eq_exact harith hnd balanced_empty calls
  refine ⟨hr ▸ hf.sum, hr ▸ hf.bound, ?_⟩
  intro c hc window he
  rw [hr, served_eq_exact harith hnd (rounds_balanced hnd balanced_empty calls)]
  exact hf.share c hc window he

end

theorem wrapI64_of_abs_le {bound x : ℤ} (hb : bound < 2 ^ 63) (hx : |x| ≤ bound) :
    wrapI64 x = x := by
  have ha := abs_le.mp hx
  apply Int.bmod_eq_of_le <;> omega

/-- Whatever candidates are eligible in each call, exact cursor values sum to zero, stay
within twice the number of candidates times their total weight and keep every candidate
that stays eligible within that bound of its share. No intermediate value leaves the bound,
so 64-bit arithmetic computes the same whenever the bound fits. -/
theorem round_robin_fair (hnodup : (candidates.map fromCandidate).Nodup)
    (calls : List (CompiledCandidate → Bool)) :
    Fair exact candidates calls ∧
      (∀ arith : ℤ → ℤ, (∀ x, |x| ≤ creditBound candidates → arith x = x) →
        rounds arith candidates ∅ calls = rounds exact candidates ∅ calls) ∧
      (creditBound candidates < 2 ^ 63 → Fair wrapI64 candidates calls) :=
  ⟨fair_exact hnodup calls, fun _ harith => rounds_eq_exact harith hnodup balanced_empty calls,
    fun hb => fair_of_inert (fun _ hx => wrapI64_of_abs_le hb hx) hnodup calls⟩

theorem round_robin_fair_two_channels : let candidates : List CompiledCandidate :=
      [⟨0, 0, plainChannel 1, "large", 2⟩, ⟨1, 1, plainChannel 2, "large", 1⟩]
    let calls : List (CompiledCandidate → Bool) :=
      [fun _ => true, fun c => decide (c.channelSlot = 1), fun _ => true]
    (candidates.map fromCandidate).Nodup ∧ creditBound candidates < 2 ^ 63 ∧
      Fair wrapI64 candidates calls :=
  ⟨by decide, by decide, (round_robin_fair (by decide) _).2.2 (by decide)⟩

end Rounds
end AiGateway.Routing.RoundRobin
