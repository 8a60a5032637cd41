import AiGateway.Lib.Checked

/-! Indexes of rows by a key that must not repeat. -/
namespace AiGateway.Lib
open List

variable {ε α K : Type} [DecidableEq K]

/-- The rows by their key, or the error when two rows share one. -/
def uniqueIndex (error : ε) (key : α → K) (rows : List α) : Except ε (Table K α) :=
  rows.foldlM (fun index row =>
    if (index.get (key row)).isSome then .error error else .ok (index.insert (key row) row)) ∅

theorem uniqueIndex_eq_ok {err : ε} {key : α → K} {rows : List α} {i : Table K α}
    (h : uniqueIndex err key rows = .ok i) :
    (rows.map key).Nodup ∧ ∀ k row, i.get k = some row ↔ row ∈ rows ∧ key row = k := by
  refine Stage.foldlM_invariant
    (fun done i => (done.map key).Nodup ∧
      ∀ k row, i.get k = some row ↔ row ∈ done ∧ key row = k) (by simp) ?_ h
  rintro done row i next - ⟨hno, hg⟩ hs
  split_ifs at hs with hkn
  cases hs
  have hfr : i.get (key row) = none := Option.not_isSome_iff_eq_none.mp hkn
  have hn : key row ∉ done.map key := by
    intro hm
    obtain ⟨o, hot, hke⟩ := mem_map.mp hm
    rw [(hg (key row) o).mpr ⟨hot, hke⟩] at hfr
    cases hfr
  refine ⟨?_, fun k found => ?_⟩
  · rw [map_append, nodup_append]
    refine ⟨hno, nodup_singleton _, fun k hk k' hk' heq => ?_⟩
    rw [map_singleton, mem_singleton] at hk'
    rw [heq, hk'] at hk
    exact hn hk
  · rw [Table.get_insert, mem_append, mem_singleton]
    split_ifs with hk
    · subst hk
      constructor
      · intro hf
        cases hf
        exact ⟨.inr rfl, rfl⟩
      · rintro ⟨hf | rfl, hke⟩
        · exact absurd (mem_map.mpr ⟨found, hf, hke⟩) hn
        · rfl
    · rw [hg]
      constructor
      · rintro ⟨hf, hke⟩
        exact ⟨.inl hf, hke⟩
      · rintro ⟨hf | rfl, hke⟩
        · exact ⟨hf, hke⟩
        · exact absurd hke.symm hk

end AiGateway.Lib
