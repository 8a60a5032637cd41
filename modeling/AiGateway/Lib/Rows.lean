import Mathlib.Data.List.Pairwise
import Mathlib.Data.List.Nodup

/-! Rows of a table in the order of their insertion, each named by its key, and the update
of one row in place. -/
namespace AiGateway.Lib
open List

variable {α κ : Type} {key : α → κ} {f : α → α} {rows : List α} {row : α} {o : α}
  {R : α → α → Prop}

theorem eq_of_key_eq (hk : (rows.map key).Nodup) (hr : row ∈ rows)
    (hot : o ∈ rows) (h : key o = key row) : o = row :=
  inj_on_of_nodup_map hk hot hr h

/-- Two rows of an ordered table are related one way or the other. -/
theorem related_of_pairwise (hr : rows.Pairwise R) (hro : row ∈ rows) (hot : o ∈ rows) (hne : row ≠ o) : R row o ∨ R o row := by
  have : Std.Symm (fun a b => R a b ∨ R b a) := ⟨fun _ _ => Or.symm⟩
  have hb : rows.Pairwise (fun a b => R a b ∨ R b a) := hr.imp (fun h => .inl h)
  exact hb.forall hro hot hne

variable [DecidableEq κ]

def updateRow (key : α → κ) (k : κ) (f : α → α) (rows : List α) : List α :=
  rows.map (fun row => if key row = k then f row else row)

theorem updateRow_cons (k : κ) (head : α) (rest : List α) :
    updateRow key k f (head :: rest) =
      (if key head = k then f head else head) :: updateRow key k f rest := rfl

theorem updateRow_of_notMem {k : κ} (h : k ∉ rows.map key) : updateRow key k f rows = rows := by
  induction rows with
  | nil => rfl
  | cons head rest ih =>
    rw [map_cons, mem_cons, not_or] at h
    rw [updateRow_cons, if_neg (Ne.symm h.1), ih h.2]

theorem map_key_updateRow (hf : ∀ row, key (f row) = key row) (k : κ) :
    (updateRow key k f rows).map key = rows.map key := by
  rw [updateRow, map_map]
  apply map_congr_left
  intro o _
  rw [Function.comp_apply]
  split_ifs
  · exact hf o
  · rfl

theorem mem_updateRow (hk : (rows.map key).Nodup) (hr : row ∈ rows) :
    o ∈ updateRow key (key row) f rows ↔ (o ∈ rows ∧ o ≠ row) ∨ o = f row := by
  rw [updateRow, mem_map]
  constructor
  · rintro ⟨found, hf, rfl⟩
    split_ifs with hke
    · exact .inr (by rw [eq_of_key_eq hk hr hf hke])
    · exact .inl ⟨hf, fun h => hke (by rw [h])⟩
  · rintro (⟨hot, hne⟩ | rfl)
    · exact ⟨o, hot, if_neg (fun h => hne (eq_of_key_eq hk hr hot h))⟩
    · exact ⟨row, hr, if_pos rfl⟩

theorem pairwise_updateRow (hk : (rows.map key).Nodup) (hr : row ∈ rows)
    (hro : rows.Pairwise R)
    (hbe : ∀ o ∈ rows, o ≠ row → R o row → R o (f row))
    (haf : ∀ o ∈ rows, o ≠ row → R row o → R (f row) o) :
    (updateRow key (key row) f rows).Pairwise R := by
  rw [updateRow, pairwise_map]
  have hd : rows.Pairwise (· ≠ ·) := List.Nodup.of_map key hk
  refine (hro.and hd).imp_of_mem (fun {a b} ha hb hab => ?_)
  obtain ⟨hR, hne⟩ := hab
  split_ifs with hka hkb hkb
  · exact absurd (inj_on_of_nodup_map hk ha hb (hka.trans hkb.symm)) hne
  · obtain rfl := eq_of_key_eq hk hr ha hka
    exact haf b hb hne.symm hR
  · obtain rfl := eq_of_key_eq hk hr hb hkb
    exact hbe a ha hne hR
  · exact hR

/-- The rows a predicate accepts, counted after the update of one row. -/
theorem countP_updateRow (p : α → Bool) (hk : (rows.map key).Nodup) (hr : row ∈ rows) :
    (updateRow key (key row) f rows).countP p + (if p row then 1 else 0) =
      rows.countP p + (if p (f row) then 1 else 0) := by
  induction rows with
  | nil => exact absurd hr not_mem_nil
  | cons head rest ih =>
    have hre : (rest.map key).Nodup := (nodup_cons.mp hk).2
    have hh : key head ∉ rest.map key := (nodup_cons.mp hk).1
    rw [updateRow_cons, countP_cons, countP_cons]
    by_cases heq : head = row
    · subst heq
      rw [if_pos rfl, updateRow_of_notMem hh]
      omega
    · have hm : row ∈ rest := (mem_cons.mp hr).resolve_left (Ne.symm heq)
      have hne : key head ≠ key row := fun h => hh (mem_map.mpr ⟨row, hm, h.symm⟩)
      have hc := ih hre hm
      rw [if_neg hne]
      omega

theorem filter_updateRow (p : α → Bool) (hke : (rows.map key).Nodup) (hr : row ∈ rows)
    (hb : p row = false) (haf : p (f row) = false) :
    (updateRow key (key row) f rows).filter p = rows.filter p := by
  rw [updateRow, filter_map]
  have hs : rows.filter (p ∘ fun o => if key o = key row then f o else o) = rows.filter p := by
    apply filter_congr
    intro o hot
    rw [Function.comp_apply]
    split_ifs with hk
    · rw [eq_of_key_eq hke hr hot hk, haf, hb]
    · rfl
  rw [hs, map_congr_left (g := id), map_id]
  intro o hot
  obtain ⟨hot, ha⟩ := mem_filter.mp hot
  refine if_neg (fun hk => ?_)
  rw [eq_of_key_eq hke hr hot hk, hb] at ha
  cases ha

end AiGateway.Lib
