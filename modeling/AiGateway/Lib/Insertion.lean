import AiGateway.Lib.Checked

/-! Statements that insert the rows whose key is free and ignore the others. -/
namespace AiGateway.Lib
open List Option

/-- What a table demands of a row: of every row of a statement, and of the added ones only. -/
structure Constraints (V : Type) where
  checks : V → Bool
  references : V → Bool

def Constraints.Accepts {V : Type} (constraints : Constraints V) (v : V) : Prop :=
  constraints.checks v = true ∧ constraints.references v = true

namespace Table
variable {K V : Type} [DecidableEq K]

def insertOrIgnore (m : Table K V) (k : K) (v : V) : Table K V :=
  if m.contains k then m else m.insert k v

def insertAll (m : Table K V) (rows : List (K × V)) : Table K V :=
  rows.foldl (fun m row => m.insertOrIgnore row.1 row.2) m

/-- The rows that find their key free, in order. -/
def added (m : Table K V) : List (K × V) → List (K × V)
  | [] => []
  | row :: rows =>
    if m.contains row.1 then added m rows else row :: added (m.insert row.1 row.2) rows

/-- One statement, with the keys it returns. It changes nothing where a constraint fails. -/
def insertRows (constraints : Constraints V) (m : Table K V) (rows : List (K × V)) :
    Option (Table K V × List K) :=
  if rows.all (fun row => constraints.checks row.2) &&
      (m.added rows).all (fun row => constraints.references row.2) then
    some (m.insertAll rows, (m.added rows).map Prod.fst)
  else none

variable {m : Table K V} {k : K} {rows : List (K × V)}

theorem contains_eq_false : m.contains k = false ↔ m.get k = none := by
  simp [contains]

theorem contains_eq_true : m.contains k = true ↔ ∃ v, m.get k = some v := by
  simp [contains, isSome_iff_exists]

theorem get_insertOrIgnore (m : Table K V) (k k' : K) (v : V) :
    (m.insertOrIgnore k v).get k' = (m.get k').or (if k' = k then some v else none) := by
  unfold insertOrIgnore
  cases hf : m.contains k with
  | true =>
    obtain ⟨stored, hg⟩ := contains_eq_true.mp hf
    by_cases hk : k' = k
    · simp [hk, hg]
    · simp [hk]
  | false =>
    have hg := contains_eq_false.mp hf
    by_cases hk : k' = k
    · simp [hk, hg]
    · simp [hk, get_insert_ne m v hk]

theorem insertOrIgnore_of_get {stored : V} (h : m.get k = some stored)
    (v : V) : m.insertOrIgnore k v = m := by
  have hf : m.contains k = true := contains_eq_true.mpr ⟨stored, h⟩
  simp [insertOrIgnore, hf]

theorem insertAll_append (m : Table K V) (rows rows' : List (K × V)) :
    m.insertAll (rows ++ rows') = (m.insertAll rows).insertAll rows' := foldl_append

/-- A key keeps its row, or gets the first one given for it. -/
theorem get_insertAll (m : Table K V) (rows : List (K × V)) (k : K) :
    (m.insertAll rows).get k =
      (m.get k).or ((rows.find? (fun row => decide (row.1 = k))).map Prod.snd) := by
  induction rows generalizing m with
  | nil => simp [insertAll]
  | cons row rows ih =>
    rw [insertAll, foldl_cons, ← insertAll, ih, get_insertOrIgnore]
    by_cases hk : row.1 = k
    · simp [hk]
    · simp [hk, Ne.symm hk]

theorem get_insertAll_of_get {v : V} (h : m.get k = some v)
    (rows : List (K × V)) : (m.insertAll rows).get k = some v := by
  rw [get_insertAll, h, some_or]

theorem get_insertAll_eq_none :
    (m.insertAll rows).get k = none ↔ m.get k = none ∧ k ∉ rows.map Prod.fst := by
  rw [get_insertAll, or_eq_none_iff, map_eq_none_iff, List.find?_eq_none]
  simp only [decide_eq_true_eq, List.mem_map, not_exists, not_and]

theorem added_cons (m : Table K V) (row : K × V) (rows : List (K × V)) :
    m.added (row :: rows) =
      (if m.contains row.1 then [] else [row]) ++ (m.insertOrIgnore row.1 row.2).added rows := by
  unfold insertOrIgnore
  cases hf : m.contains row.1 <;> simp [added, hf]

theorem mem_of_mem_added {row : K × V} (h : row ∈ m.added rows) : row ∈ rows := by
  induction rows generalizing m with
  | nil => exact h
  | cons first rows ih =>
    rw [added_cons, mem_append] at h
    rcases h with hf | hr
    · split_ifs at hf
      · cases hf
      · rw [mem_singleton.mp hf]
        exact mem_cons_self
    · exact mem_cons_of_mem _ (ih hr)

theorem mem_map_added (m : Table K V) (rows : List (K × V)) (k : K) :
    k ∈ (m.added rows).map Prod.fst ↔ m.get k = none ∧ k ∈ rows.map Prod.fst := by
  induction rows generalizing m with
  | nil => simp [added]
  | cons row rows ih =>
    rw [added_cons, map_append, mem_append, ih, get_insertOrIgnore]
    cases hf : m.contains row.1 with
    | true =>
      obtain ⟨stored, hg⟩ := contains_eq_true.mp hf
      by_cases hk : k = row.1
      · simp [hk, hg]
      · simp [hk]
    | false =>
      have hg := contains_eq_false.mp hf
      by_cases hk : k = row.1
      · simp [hk, hg]
      · simp [hk]

theorem insertRows_of_accepted {constraints : Constraints V} (m : Table K V)
    (h : ∀ row ∈ rows, constraints.Accepts row.2) :
    m.insertRows constraints rows = some (m.insertAll rows, (m.added rows).map Prod.fst) := by
  have hc : rows.all (fun row => constraints.checks row.2) = true :=
    all_eq_true.mpr (fun row hm => (h row hm).1)
  have hr : (m.added rows).all (fun row => constraints.references row.2) = true :=
    all_eq_true.mpr (fun row hm => (h row (mem_of_mem_added hm)).2)
  simp [insertRows, hc, hr]

end Table
end AiGateway.Lib
