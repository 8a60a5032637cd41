import Mathlib.Tactic.Positivity

/-! Signed integers of a fixed width. -/
namespace AiGateway.Lib

/-- A two's complement integer of `width + 1` bits. -/
structure Signed (width : ℕ) where
  value : ℤ
  lower : -2 ^ width ≤ value
  upper : value < 2 ^ width
  deriving DecidableEq

abbrev I64 := Signed 63

abbrev I32 := Signed 31

namespace Signed

variable {width : ℕ} {a b : Signed width}

@[ext] theorem ext (h : a.value = b.value) : a = b := by
  cases a
  cases b
  cases h
  rfl

def ofInt? (v : ℤ) : Option (Signed width) :=
  if h : -2 ^ width ≤ v ∧ v < 2 ^ width then some ⟨v, h.1, h.2⟩ else none

def saturating (value : ℤ) : Signed width :=
  ⟨max (-2 ^ width) (min value (2 ^ width - 1)), le_max_left _ _, by
    have hpos : (0 : ℤ) < 2 ^ width := by positivity
    omega⟩

def saturatingSub (a b : Signed width) : Signed width := saturating (a.value - b.value)

def checkedAdd (a b : Signed width) : Option (Signed width) := ofInt? (a.value + b.value)

theorem value_saturating {v : ℤ} (hl : -2 ^ width ≤ v) (hu : v < 2 ^ width) :
    (saturating v : Signed width).value = v := by
  unfold saturating
  dsimp only
  omega

theorem value_saturatingSub (hb : 0 ≤ b.value) (hle : b.value ≤ a.value) :
    (a.saturatingSub b).value = a.value - b.value :=
  value_saturating (by have hp : (0 : ℤ) < 2 ^ width := by positivity
                       omega) (by have := a.upper; omega)

end Signed
end AiGateway.Lib
