import AiGateway.Lib.JsonPatch

/-! Paths into JSON values, and equality of values read along them. -/
namespace AiGateway.Lib.Json
open List

inductive Step where
  | item (index : ℕ)
  | member (key : Bytes)

/-- The child a step leads to; null where there is none. -/
def under (value : Json) : Step → Json
  | .item index => (value.asArray.bind (·[index]?)).getD .null
  | .member key => (value.get key).getD .null

def reach (value : Json) (path : List Step) : Json := path.foldl under value

/-- Equal as the program compares values. -/
def Same (a b : Json) : Prop := a.sameValue b = true

variable {a b : Json} {items items' : List Json} {ms ms' : List (Bytes × Json)}
  {key : Bytes}

theorem sameItems_iff : sameItems items items' = true ↔ List.Forall₂ Same items items' := by
  induction items generalizing items' with
  | nil => cases items' <;> simp [sameItems]
  | cons item items ih => cases items' <;> simp [sameItems, ih, Same]

theorem sameMembers_iff :
    sameMembers ms ms' = true ↔ List.Forall₂ (fun m m' => m.1 = m'.1 ∧ Same m.2 m'.2) ms ms' := by
  induction ms generalizing ms' with
  | nil => cases ms' <;> simp [sameMembers]
  | cons member ms ih => cases ms' <;> simp [sameMembers, ih, Same, and_assoc]

theorem Same.isNull_eq (h : Same a b) : a.isNull = b.isNull := by
  cases a <;> cases b <;> first | rfl | cases h

theorem same_array :
    Same (.array items) (.array items') ↔ List.Forall₂ Same items items' := sameItems_iff

theorem same_object :
    Same (.object ms) (.object ms') ↔
      List.Forall₂ (fun m m' => m.1 = m'.1 ∧ Same m.2 m'.2) ms ms' := sameMembers_iff

theorem rel_lookup
    (h : List.Forall₂ (fun m m' => m.1 = m'.1 ∧ Same m.2 m'.2) ms ms') (key : Bytes) :
    Option.Rel Same (ms.lookup key) (ms'.lookup key) := by
  induction h with
  | nil => exact .none
  | @cons m m' _ _ hm _ ih =>
    rw [lookup_cons, lookup_cons, hm.1]
    cases key == m'.1 with
    | true => exact .some hm.2
    | false => exact ih

theorem Same.rel_get (h : Same a b) (key : Bytes) : Option.Rel Same (a.get key) (b.get key) := by
  cases a <;> cases b <;> first | exact .none | exact rel_lookup (same_object.mp h) key | cases h

theorem same_getD {x y : Option Json} (h : Option.Rel Same x y) :
    Same (x.getD .null) (y.getD .null) := by
  cases h with
  | none => rfl
  | some hs => exact hs

theorem Same.under (h : Same a b) (step : Step) : Same (a.under step) (b.under step) := by
  cases step with
  | member key => exact same_getD (h.rel_get key)
  | item i =>
    refine same_getD ?_
    cases a <;> cases b <;> try first | exact .none | cases h
    rename_i items items'
    have hit := same_array.mp h
    change Option.Rel Same items[i]? items'[i]?
    rcases Nat.lt_or_ge i items.length with hlt | hge
    · rw [List.getElem?_eq_getElem hlt, List.getElem?_eq_getElem (hit.length_eq ▸ hlt)]
      exact .some (hit.get hlt _)
    · rw [List.getElem?_eq_none hge, List.getElem?_eq_none (hit.length_eq ▸ hge)]
      exact .none

theorem Same.reach (h : Same a b) (path : List Step) : Same (a.reach path) (b.reach path) := by
  induction path generalizing a b with
  | nil => exact h
  | cons step path ih => exact ih (h.under step)

theorem Ordered.of_lookup {child : Json}
    (h : ∀ member ∈ ms, Ordered member.2) (hc : ms.lookup key = some child) :
    Ordered child := by
  obtain ⟨pre, after, rfl, -⟩ := lookup_eq_some_iff.mp hc
  exact h (key, child) (mem_append_right _ mem_cons_self)

theorem Ordered.under (h : Ordered a) (step : Step) : Ordered (a.under step) := by
  cases h with
  | null | bool _ | number _ | string _ => cases step <;> exact .null
  | @array items hit =>
    cases step with
    | member key => exact .null
    | item i =>
      change Ordered (items[i]?.getD .null)
      cases him : items[i]? with
      | none => exact .null
      | some item => exact hit item (mem_of_getElem? him)
  | @object ms _ hm =>
    cases step with
    | item i => exact .null
    | member key =>
      change Ordered ((ms.lookup key).getD .null)
      cases hc : ms.lookup key with
      | none => exact .null
      | some child => exact .of_lookup hm hc

theorem Ordered.reach (h : Ordered a) (path : List Step) : Ordered (a.reach path) := by
  induction path generalizing a with
  | nil => exact h
  | cons step path ih => exact ih (h.under step)

theorem lookup_eq_none_of_lt
    (h : ∀ o ∈ ms.map Prod.fst, key < o) : ms.lookup key = none := by
  rw [lookup_eq_none_iff]
  intro member hm
  have hlt := h member.1 (mem_map_of_mem hm)
  exact bne_iff_ne.mpr (fun heq => List.lt_irrefl _ (heq ▸ hlt))

theorem lookup_cons_eq_none_of_lt {member : Bytes × Json} (hk : ∀ o ∈ ms.map Prod.fst, member.1 < o)
    (h : key < member.1) : (member :: ms).lookup key = none := by
  refine lookup_eq_none_of_lt (fun o hot => ?_)
  rcases mem_cons.mp hot with rfl | hot
  · exact h
  · exact List.lt_trans h (hk o hot)

/-- Members in order are determined by what is looked up. -/
theorem forall₂_of_rel_lookup (hk : (ms.map Prod.fst).Pairwise (· < ·))
    (hk' : (ms'.map Prod.fst).Pairwise (· < ·))
    (h : ∀ key, Option.Rel Same (ms.lookup key) (ms'.lookup key)) :
    List.Forall₂ (fun m m' => m.1 = m'.1 ∧ Same m.2 m'.2) ms ms' := by
  induction ms generalizing ms' with
  | nil =>
    cases ms' with
    | nil => exact .nil
    | cons m' _ =>
      have hh := h m'.1
      rw [lookup_cons_self] at hh
      cases hh
  | cons m ms ih =>
    have hh := h m.1
    rw [lookup_cons_self] at hh
    rw [map_cons, pairwise_cons] at hk
    cases ms' with
    | nil => cases hh
    | cons m' ms' =>
      rw [map_cons, pairwise_cons] at hk'
      have hle : ¬ m.1 < m'.1 := by
        intro hlt
        rw [lookup_cons_eq_none_of_lt hk'.1 hlt] at hh
        cases hh
      have hge : ¬ m'.1 < m.1 := by
        intro hlt
        have hh' := h m'.1
        rw [lookup_cons_self, lookup_cons_eq_none_of_lt hk.1 hlt] at hh'
        cases hh'
      have hke : m.1 = m'.1 := List.le_antisymm hge hle
      rw [List.lookup_cons, hke, beq_self_eq_true] at hh
      cases hh with
      | some hs =>
        refine .cons ⟨hke, hs⟩ (ih hk.2 hk'.2 (fun key => ?_))
        by_cases heq : key = m.1
        · rw [heq, lookup_eq_none_of_lt hk.1, lookup_eq_none_of_lt (hke ▸ hk'.1)]
          exact .none
        · have hr := h key
          rwa [lookup_cons, lookup_cons, beq_false_of_ne heq, beq_false_of_ne (hke ▸ heq)] at hr

end AiGateway.Lib.Json
