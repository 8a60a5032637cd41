import Mathlib.Data.List.Infix

/-! The longest prefix of a pattern that ends a text, and how one more element moves it. -/
namespace AiGateway.Lib
open List

variable {α : Type} {p t : List α} {a : α} {i j m : ℕ}

structure Overlap (p t : List α) (m : ℕ) : Prop where
  le : m ≤ p.length
  suffix : p.take m <:+ t
  longest : ∀ j ≤ p.length, p.take j <:+ t → j ≤ m

theorem Overlap.nil (p : List α) : Overlap p [] 0 := by
  refine ⟨Nat.zero_le _, nil_suffix, fun j hj h => ?_⟩
  have hl := h.length_le
  rw [length_take, Nat.min_eq_left hj] at hl
  exact hl

theorem Overlap.eq_length_iff (h : Overlap p t m) : m = p.length ↔ p <:+ t := by
  constructor
  · rintro rfl
    simpa using h.suffix
  · intro hp
    exact Nat.le_antisymm h.le (h.longest _ le_rfl (by simpa using hp))

theorem take_succ_suffix_iff (hi : i < p.length) :
    p.take (i + 1) <:+ t ++ [a] ↔ p[i]? = some a ∧ p.take i <:+ t := by
  rw [take_succ_eq_append_getElem hi, getElem?_eq_getElem hi, Option.some.injEq]
  constructor
  · rintro ⟨s, hs⟩
    rw [← append_assoc] at hs
    obtain ⟨hs, ha⟩ := append_inj' hs rfl
    exact ⟨singleton_inj.mp ha, s, hs⟩
  · rintro ⟨ha, s, hs⟩
    exact ⟨s, by rw [ha, ← append_assoc, hs]⟩

/-- Every prefix that ends the text and goes on with the element is among those up to `m`. -/
structure Candidate (p t : List α) (a : α) (m : ℕ) : Prop where
  lt : m < p.length
  suffix : p.take m <:+ t
  longest : ∀ i < p.length, p[i]? = some a → p.take i <:+ t → i ≤ m

theorem Overlap.candidate (h : Overlap p t m) (hm : m < p.length) : Candidate p t a m :=
  ⟨hm, h.suffix, fun i hi _ => h.longest i hi.le⟩

/-- Past a prefix that goes on otherwise, the longest one within it comes next. -/
theorem Candidate.fallBack (h : Candidate p t a m) (hm : 0 < m) (ha : p[m]? ≠ some a)
    (ho : Overlap p (p.take m).tail j) : j < m ∧ Candidate p t a j := by
  have hlen : (p.take m).tail.length = m - 1 := by simp [h.lt.le]
  have hj : j < m := by
    have hl := ho.suffix.length_le
    rw [length_take, Nat.min_eq_left ho.le] at hl
    omega
  refine ⟨hj, hj.trans h.lt, (ho.suffix.trans (tail_suffix _)).trans h.suffix, fun i hi hia hs => ?_⟩
  have hne : i ≠ m := fun heq => ha (heq ▸ hia)
  have him := h.longest i hi hia hs
  have hit : p.take i <:+ p.take m := suffix_of_suffix_length_le hs h.suffix (by simp; omega)
  exact ho.longest i hi.le (suffix_of_suffix_length_le hit (tail_suffix _)
    (by rw [hlen, length_take]; omega))

/-- The first prefix that goes on with the element grows by it. -/
theorem Candidate.extend (h : Candidate p t a m) (ha : p[m]? = some a) :
    Overlap p (t ++ [a]) (m + 1) := by
  refine ⟨h.lt, (take_succ_suffix_iff h.lt).mpr ⟨ha, h.suffix⟩, fun j hj hs => ?_⟩
  cases j with
  | zero => exact Nat.zero_le _
  | succ i =>
    obtain ⟨hi, hs⟩ := (take_succ_suffix_iff hj).mp hs
    exact Nat.succ_le_succ (h.longest i hj hi hs)

theorem Candidate.nothing (h : Candidate p t a 0) (ha : p[0]? ≠ some a) :
    Overlap p (t ++ [a]) 0 := by
  refine ⟨Nat.zero_le _, nil_suffix, fun j hj hs => ?_⟩
  cases j with
  | zero => exact le_rfl
  | succ i =>
    obtain ⟨hi, hs⟩ := (take_succ_suffix_iff hj).mp hs
    rw [Nat.le_zero.mp (h.longest i hj hi hs)] at hi
    exact absurd hi ha

end AiGateway.Lib
