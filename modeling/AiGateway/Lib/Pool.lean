import Mathlib.Data.List.Basic

/-! A list of concurrent activities of which one is replaced at a time. -/
namespace AiGateway.Lib
open List

variable {α : Type} {l : List α} {i : ℕ} {a b : α}

theorem mem_of_mem_set {x : α} (h : x ∈ l.set i b) : x ∈ l ∨ x = b := mem_or_eq_of_mem_set h

theorem mem_set_of_ne {x : α} (hx : x ∈ l) (hi : l[i]? = some a) (hne : x ≠ a) : x ∈ l.set i b := by
  obtain ⟨j, hj, rfl⟩ := getElem_of_mem hx
  have hij : i ≠ j := by
    rintro rfl
    rw [List.getElem?_eq_getElem hj, Option.some_inj] at hi
    exact hne hi
  refine mem_iff_getElem?.mpr ⟨j, ?_⟩
  rw [List.getElem?_set_ne hij, List.getElem?_eq_getElem hj]

theorem mem_set_self (hi : l[i]? = some a) : b ∈ l.set i b := by
  obtain ⟨hlt, -⟩ := List.getElem?_eq_some_iff.mp hi
  exact mem_set hlt b

/-- Replacing an activity moves the count by the difference of the two. -/
theorem countP_set_add {p : α → Bool} (hi : l[i]? = some a) :
    (l.set i b).countP p + (if p a then 1 else 0) = l.countP p + if p b then 1 else 0 := by
  induction l generalizing i with
  | nil => cases hi
  | cons x l ih =>
    cases i with
    | zero =>
      cases hi
      rw [set_cons_zero, countP_cons, countP_cons]
      omega
    | succ i =>
      have ht := ih hi
      rw [set_cons_succ, countP_cons, countP_cons]
      omega

end AiGateway.Lib
