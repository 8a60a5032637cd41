import Mathlib.Data.BitVec
import Mathlib.Tactic

/-! Sets of slot numbers packed into words of fixed width. -/
namespace AiGateway.Lib.PackedBits
open List Bool

variable {w : ℕ}

def test (words : List (BitVec w)) (slot : ℕ) : Bool :=
  match words[slot / w]? with
  | some bits => bits &&& (1#w <<< (slot % w)) != 0#w
  | none => false

/-- Fails when the slot lies beyond the words. -/
def set? (words : List (BitVec w)) (slot : ℕ) : Option (List (BitVec w)) :=
  match words[slot / w]? with
  | some bits => some (words.set (slot / w) (bits ||| (1#w <<< (slot % w))))
  | none => none

/-- As many words as it takes to hold `n` slots. -/
def zeros (w n : ℕ) : List (BitVec w) := List.replicate ((n + w - 1) / w) 0#w

variable {i : ℕ} {words words' : List (BitVec w)} {slot : ℕ}

theorem getLsbD_one_shiftLeft {j : ℕ} (hi : i < w) (hj : j < w) :
    (1#w <<< i).getLsbD j = decide (j = i) := by
  rw [BitVec.getLsbD_shiftLeft]
  by_cases h : j = i
  · subst h
    simp [hj]
    omega
  · simp only [h, decide_false, and_eq_false_iff]
    by_cases hlt : j < i
    · simp [hlt]
    · have hs : j - i ≠ 0 := by omega
      simp [hs]

theorem ne_zero_iff (bits : BitVec w) : bits ≠ 0#w ↔ ∃ i, i < w ∧ bits.getLsbD i = true := by
  constructor
  · intro hne
    by_contra ha
    push Not at ha
    apply hne
    apply BitVec.eq_of_getLsbD_eq
    intro i hi
    simpa using ha i hi
  · rintro ⟨i, -, hb⟩ rfl
    simp at hb

theorem and_bit_ne_zero (bits : BitVec w) (hi : i < w) :
    (bits &&& (1#w <<< i) != 0#w) = bits.getLsbD i := by
  rw [Bool.eq_iff_iff, bne_iff_ne, ne_zero_iff]
  constructor
  · rintro ⟨j, hj, hb⟩
    rw [BitVec.getLsbD_and, getLsbD_one_shiftLeft hi hj, and_eq_true, decide_eq_true_eq] at hb
    exact hb.2 ▸ hb.1
  · intro hb
    refine ⟨i, hi, ?_⟩
    rw [BitVec.getLsbD_and, getLsbD_one_shiftLeft hi hi, hb]
    simp

theorem set?_of_lt (h : slot / w < words.length) : ∃ words', set? words slot = some words' := by
  unfold set?
  rw [List.getElem?_eq_getElem h]
  exact ⟨_, rfl⟩

theorem length_set?
    (h : set? words slot = some words') : words'.length = words.length := by
  unfold set? at h
  split at h
  · cases h
    exact length_set
  · cases h

section Width
variable [NeZero w]

theorem mod_lt (slot : ℕ) : slot % w < w := Nat.mod_lt _ (NeZero.pos w)

theorem test_eq (words : List (BitVec w)) (slot : ℕ) :
    test words slot = (words[slot / w]?).any (fun bits => bits.getLsbD (slot % w)) := by
  unfold test
  cases words[slot / w]? with
  | none => rfl
  | some bits => exact and_bit_ne_zero bits (mod_lt slot)

theorem test_at (words : List (BitVec w)) (i j : ℕ) (hj : j < w) :
    test words (i * w + j) = (words[i]?).any (fun bits => bits.getLsbD j) := by
  have hw := NeZero.pos w
  have hd : (i * w + j) / w = i := by
    rw [Nat.mul_comm, Nat.mul_add_div hw, Nat.div_eq_of_lt hj, Nat.add_zero]
  have hm : (i * w + j) % w = j := by
    rw [Nat.mul_comm, Nat.mul_add_mod, Nat.mod_eq_of_lt hj]
  rw [test_eq, hd, hm]

variable {words : List (BitVec w)} {slot : ℕ} {words' : List (BitVec w)}

theorem test_lt (h : test words slot = true) : slot / w < words.length := by
  rw [test_eq] at h
  by_contra hge
  rw [List.getElem?_eq_none (by omega)] at h
  cases h

theorem test_set? (h : set? words slot = some words')
    (o : ℕ) : test words' o = true ↔ o = slot ∨ test words o = true := by
  unfold set? at h
  split at h
  · rename_i bits hb
    cases h
    obtain ⟨hlt, -⟩ := List.getElem?_eq_some_iff.mp hb
    rw [test_eq, test_eq]
    by_cases hw : o / w = slot / w
    · rw [hw, List.getElem?_set_self hlt, hb]
      simp only [Option.any_some, BitVec.getLsbD_or, or_eq_true,
        getLsbD_one_shiftLeft (mod_lt slot) (mod_lt o), decide_eq_true_eq]
      have hs : o % w = slot % w ↔ o = slot := by
        constructor
        · intro hm
          rw [← Nat.div_add_mod o w, ← Nat.div_add_mod slot w, hw, hm]
        · rintro rfl
          rfl
      rw [hs]
      exact or_comm
    · have hne : o ≠ slot := fun heq => hw (heq ▸ rfl)
      rw [List.getElem?_set_ne (Ne.symm hw)]
      simp [hne]
  · cases h

theorem test_zeros (n slot : ℕ) : test (zeros w n) slot = false := by
  rw [test_eq]
  unfold zeros
  cases h : (List.replicate ((n + w - 1) / w) 0#w)[slot / w]? with
  | none => rfl
  | some bits =>
    have hz := eq_of_mem_replicate (mem_of_getElem? h)
    simp [hz]

theorem zeros_bound {n : ℕ} (h : slot < n) : slot / w < (zeros w n).length := by
  have hw := NeZero.pos w
  rw [zeros, length_replicate, Nat.div_lt_iff_lt_mul hw]
  have hc : n ≤ (n + w - 1) / w * w := by
    have hd := Nat.div_add_mod (n + w - 1) w
    have hm := Nat.mod_lt (n + w - 1) hw
    rw [Nat.mul_comm]
    omega
  omega

theorem eq_of_test_eq (hl : words.length = words'.length)
    (h : ∀ slot, test words slot = test words' slot) : words = words' := by
  apply ext_getElem hl
  intro i hi hi'
  apply BitVec.eq_of_getLsbD_eq
  intro j hj
  have hat := h (i * w + j)
  rw [test_at _ _ _ hj, test_at _ _ _ hj, List.getElem?_eq_getElem hi,
    List.getElem?_eq_getElem hi'] at hat
  exact hat

theorem any_ne_zero_iff (words : List (BitVec w)) :
    words.any (· != 0#w) = true ↔ ∃ slot, test words slot = true := by
  simp only [any_eq_true, bne_iff_ne]
  constructor
  · rintro ⟨bits, hm, hne⟩
    obtain ⟨i, hi, rfl⟩ := getElem_of_mem hm
    obtain ⟨j, hj, hb⟩ := (ne_zero_iff _).mp hne
    refine ⟨i * w + j, ?_⟩
    rw [test_at _ _ _ hj, List.getElem?_eq_getElem hi]
    exact hb
  · rintro ⟨slot, hs⟩
    have hlt := test_lt hs
    rw [test_eq, List.getElem?_eq_getElem hlt] at hs
    exact ⟨_, getElem_mem hlt, (ne_zero_iff _).mpr ⟨_, mod_lt slot, hs⟩⟩

/-- Word by word, two sets meet exactly when they share a slot. -/
theorem any_and_ne_zero_iff (words words' : List (BitVec w)) :
    (words.zip words').any (fun pair => pair.1 &&& pair.2 != 0#w) = true ↔
      ∃ slot, test words slot = true ∧ test words' slot = true := by
  simp only [any_eq_true, bne_iff_ne]
  constructor
  · rintro ⟨⟨bits, bits'⟩, hm, hne⟩
    obtain ⟨i, hi, hg⟩ := getElem_of_mem hm
    rw [getElem_zip, Prod.mk.injEq] at hg
    obtain ⟨j, hj, hb⟩ := (ne_zero_iff _).mp hne
    rw [BitVec.getLsbD_and, and_eq_true] at hb
    rw [length_zip] at hi
    refine ⟨i * w + j, ?_, ?_⟩
    · rw [test_at _ _ _ hj, List.getElem?_eq_getElem (by omega), hg.1]
      exact hb.1
    · rw [test_at _ _ _ hj, List.getElem?_eq_getElem (by omega), hg.2]
      exact hb.2
  · rintro ⟨slot, hs, hs'⟩
    have hlt := test_lt hs
    have hlt' := test_lt hs'
    rw [test_eq, List.getElem?_eq_getElem hlt] at hs
    rw [test_eq, List.getElem?_eq_getElem hlt'] at hs'
    have hz : slot / w < (words.zip words').length := by
      rw [length_zip]
      omega
    refine ⟨(words.zip words').get ⟨slot / w, hz⟩, get_mem _ _, ?_⟩
    rw [ne_zero_iff]
    refine ⟨slot % w, mod_lt slot, ?_⟩
    rw [get_eq_getElem, getElem_zip, BitVec.getLsbD_and, and_eq_true]
    exact ⟨hs, hs'⟩

end Width
end AiGateway.Lib.PackedBits
