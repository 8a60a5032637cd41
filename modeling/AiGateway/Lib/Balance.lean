import Mathlib.Tactic

/-! Credit rounds: every eligible participant earns its weight and the one with the most
credit pays the total earned. Credits stay bounded however the eligible set changes. -/
namespace AiGateway.Lib.Balance
open Finset

variable {ι : Type}

/-- The credits of `k` participants never exceed the total weight times `k * (n - k)`. -/
def Bounded (s : Finset ι) (w v : ι → ℤ) : Prop :=
  ∀ K ⊆ s, ∑ i ∈ K, v i ≤ (∑ i ∈ s, w i) * (K.card * (s.card - K.card))

variable {s : Finset ι} {w v : ι → ℤ}

theorem bounded_zero (hw : ∀ i ∈ s, 0 ≤ w i) : Bounded s w (fun _ => 0) := by
  intro K hK
  rw [sum_const_zero]
  have hc : (K.card : ℤ) ≤ s.card := by exact_mod_cast card_le_card hK
  have hk : (0 : ℤ) ≤ K.card := Int.natCast_nonneg _
  exact mul_nonneg (sum_nonneg hw) (mul_nonneg hk (by linarith))

variable [DecidableEq ι]

/-- Credits once every eligible participant has earned its weight. -/
def earn (w : ι → ℤ) (eligible : Finset ι) (v : ι → ℤ) (i : ι) : ℤ :=
  v i + if i ∈ eligible then w i else 0

/-- Credits once the winner has also paid what was earned. -/
def settle (w : ι → ℤ) (eligible : Finset ι) (winner : ι) (v : ι → ℤ) (i : ι) : ℤ :=
  earn w eligible v i - if i = winner then ∑ j ∈ eligible, w j else 0

variable {el : Finset ι} {win : ι}

theorem sum_earn (K : Finset ι) :
    ∑ i ∈ K, earn w el v i = ∑ i ∈ K, v i + ∑ i ∈ K ∩ el, w i := by
  simp only [earn, sum_add_distrib, sum_ite_mem]

variable {K : Finset ι}

theorem sum_settle_of_mem (hm : win ∈ K) :
    ∑ i ∈ K, settle w el win v i = ∑ i ∈ K, v i + ∑ i ∈ K ∩ el, w i - ∑ i ∈ el, w i := by
  simp only [settle, sum_sub_distrib, sum_earn, sum_ite_eq', hm, if_true]

theorem sum_settle_of_notMem (hm : win ∉ K) :
    ∑ i ∈ K, settle w el win v i = ∑ i ∈ K, v i + ∑ i ∈ K ∩ el, w i := by
  simp only [settle, sum_sub_distrib, sum_earn, sum_ite_eq', hm, if_false, sub_zero]

theorem sum_settle (he : el ⊆ s) (hm : win ∈ s) :
    ∑ i ∈ s, settle w el win v i = ∑ i ∈ s, v i := by
  rw [sum_settle_of_mem hm, inter_eq_right.mpr he]
  ring

theorem sum_inter_le (hw : ∀ i ∈ s, 0 ≤ w i) (hK : K ⊆ s) (el : Finset ι) :
    ∑ i ∈ K ∩ el, w i ≤ ∑ i ∈ s, w i :=
  sum_le_sum_of_subset_of_nonneg (inter_subset_left.trans hK) (fun i hi _ => hw i hi)

/-- Exchanging an eligible member of `K` for the winner pays for what `K` earned. -/
theorem Bounded.sum_earn_le (hv : Bounded s w v) (hw : ∀ i ∈ s, 0 ≤ w i)
    (hK : K ⊆ s) (hms : win ∈ s) (hm : win ∉ K) {j : ι} (hj : j ∈ K)
    (hle : earn w el v j ≤ earn w el v win) :
    ∑ i ∈ K, earn w el v i ≤ (∑ i ∈ s, w i) * (K.card * (s.card - K.card)) := by
  have hp : insert win K ⊆ s := insert_subset hms hK
  have hmi : K.erase j ⊆ s := (erase_subset j K).trans hK
  have ha : ∑ i ∈ insert win K, earn w el v i =
      earn w el v win + ∑ i ∈ K, earn w el v i := sum_insert hm
  have hsu : ∑ i ∈ K.erase j, earn w el v i + earn w el v j =
      ∑ i ∈ K, earn w el v i := sum_erase_add K _ hj
  have hc : (K.erase j).card + 1 = K.card := card_erase_add_one hj
  have hb := hv _ hp
  have hs := hv _ hmi
  rw [card_insert_of_notMem hm] at hb
  have hwb := sum_inter_le hw hp el
  have hws := sum_inter_le hw hmi el
  rw [sum_earn (insert win K)] at ha
  rw [sum_earn (K.erase j)] at hsu
  push_cast [← hc] at hb hs ⊢
  nlinarith

/-- A round keeps the bound when the winner is eligible and holds the most credit. -/
theorem Bounded.round (hv : Bounded s w v) (hw : ∀ i ∈ s, 0 ≤ w i) (he : el ⊆ s)
    (hm : win ∈ el)
    (hma : ∀ j ∈ el, earn w el v j ≤ earn w el v win) :
    Bounded s w (settle w el win v) := by
  intro K hK
  by_cases hmK : win ∈ K
  · rw [sum_settle_of_mem hmK]
    have hp : ∑ i ∈ K ∩ el, w i ≤ ∑ i ∈ el, w i :=
      sum_le_sum_of_subset_of_nonneg inter_subset_right (fun i hi _ => hw i (he hi))
    linarith [hv K hK]
  · rw [sum_settle_of_notMem hmK]
    rcases (K ∩ el).eq_empty_or_nonempty with hn | ⟨j, hj⟩
    · rw [hn, sum_empty, add_zero]
      exact hv K hK
    · obtain ⟨hjK, hje⟩ := mem_inter.mp hj
      rw [← sum_earn]
      exact hv.sum_earn_le hw hK (he hm) hmK hjK (hma j hje)

/-- Credits that sum to zero lie between minus and plus `(n - 1)` times the total weight. -/
theorem Bounded.abs_credit_le (hv : Bounded s w v) (hsu : ∑ i ∈ s, v i = 0) {i : ι} (hi : i ∈ s) :
    |v i| ≤ (∑ j ∈ s, w j) * (s.card - 1) := by
  have hon := hv {i} (singleton_subset_iff.mpr hi)
  have hr := hv (s.erase i) (erase_subset i s)
  have hs : ∑ j ∈ s.erase i, v j + v i = ∑ j ∈ s, v j := sum_erase_add s v hi
  have hc : (s.erase i).card + 1 = s.card := card_erase_add_one hi
  rw [sum_singleton, card_singleton] at hon
  push_cast [← hc] at hon hr ⊢
  rw [abs_le]
  constructor <;> linarith

/-- Rounds from zero in which the same participants are always eligible. -/
structure Play (s : Finset ι) (w : ι → ℤ) (v : ℕ → ι → ℤ) (winner : ℕ → ι) : Prop where
  zero : ∀ i, v 0 i = 0
  step : ∀ n, v (n + 1) = settle w s (winner n) (v n)
  mem : ∀ n, winner n ∈ s
  max : ∀ n, ∀ i ∈ s, earn w s (v n) i ≤ earn w s (v n) (winner n)

namespace Play
variable {v : ℕ → ι → ℤ} {win : ℕ → ι} {i : ι}

theorem outside (h : Play s w v win) (hi : i ∉ s) (n : ℕ) : v n i = 0 := by
  induction n with
  | zero => exact h.zero i
  | succ n ih =>
    have hne : i ≠ win n := fun he => hi (he ▸ h.mem n)
    rw [h.step, settle, earn, if_neg hi, if_neg hne, ih]
    rfl

theorem sum_eq_zero (h : Play s w v win) (n : ℕ) : ∑ i ∈ s, v n i = 0 := by
  induction n with
  | zero => exact Finset.sum_eq_zero (fun i _ => h.zero i)
  | succ n ih => rw [h.step, sum_settle Subset.rfl (h.mem n), ih]

/-- The credit of a participant: what it earned, less the total for every round it won. -/
theorem credit_eq (h : Play s w v win) (hi : i ∈ s) (n : ℕ) :
    v n i = n * w i - (∑ j ∈ s, w j) * Nat.count (fun k => win k = i) n := by
  induction n with
  | zero => simp [h.zero i]
  | succ n ih =>
    rw [h.step, settle, earn, if_pos hi, ih, Nat.count_succ]
    by_cases hw : win n = i
    · rw [if_pos hw.symm, if_pos hw]
      push_cast
      ring
    · rw [if_neg (Ne.symm hw), if_neg hw]
      push_cast
      ring

/-- No debt reaches the total: whoever pays it held credit, as the credits sum to it. -/
theorem neg_lt (h : Play s w v win) (hw : ∀ i ∈ s, 0 ≤ w i) (hpos : 0 < ∑ j ∈ s, w j) (n : ℕ) :
    ∀ i ∈ s, -∑ j ∈ s, w j < v n i := by
  induction n with
  | zero =>
    intro i _
    rw [h.zero i]
    linarith
  | succ n ih =>
    intro i hi
    rw [h.step, settle]
    by_cases he : i = win n
    · have hs : ∑ j ∈ s, earn w s (v n) j = ∑ j ∈ s, w j := by
        rw [sum_earn, h.sum_eq_zero, inter_self, zero_add]
      have hgt : 0 < earn w s (v n) i := by
        by_contra hle
        have hall : ∑ j ∈ s, earn w s (v n) j ≤ 0 :=
          sum_nonpos (fun j hj => (h.max n j hj).trans (he ▸ not_lt.mp hle))
        linarith
      rw [if_pos he]
      linarith
    · rw [if_neg he, earn, if_pos hi]
      linarith [ih i hi, hw i hi]

/-- After as many rounds as the total weight every credit is zero again. -/
theorem cycle (h : Play s w v win) (hw : ∀ i ∈ s, 0 ≤ w i) {total : ℕ}
    (ht : (total : ℤ) = ∑ j ∈ s, w j) (hpos : 0 < total) (i : ι) : v total i = 0 := by
  by_cases hi : i ∈ s
  · have hnonneg : ∀ i ∈ s, 0 ≤ v total i := by
      intro i hi
      have hlt := h.neg_lt hw (by omega) total i hi
      rw [h.credit_eq hi, ← ht, ← mul_sub] at hlt ⊢
      have hd : -1 < w i - Nat.count (fun k => win k = i) total := by
        by_contra hle
        nlinarith
      exact mul_nonneg (by omega) (by omega)
    exact (sum_eq_zero_iff_of_nonneg hnonneg).mp (h.sum_eq_zero total) i hi
  · exact h.outside hi total

end Play

end AiGateway.Lib.Balance
