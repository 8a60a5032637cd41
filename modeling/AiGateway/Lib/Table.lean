import Mathlib.Data.List.AList

/-! Finite maps with the operations of a hash map. The order of the entries
stands for the unspecified iteration order of a hash table. -/
namespace AiGateway.Lib
open List

/-- A finite map from keys to values, each key bound at most once. -/
def Table (K V : Type) : Type := AList (fun _ : K => V)

namespace Table
variable {K V : Type}

def empty : Table K V := (∅ : AList (fun _ : K => V))

instance : EmptyCollection (Table K V) := ⟨empty⟩

def toList (m : Table K V) : List (K × V) := m.entries.map (fun e => (e.1, e.2))

def keys (m : Table K V) : List K := AList.keys m

def values (m : Table K V) : List V := m.toList.map Prod.snd

def len (m : Table K V) : ℕ := m.entries.length

def retain (p : K → V → Bool) (m : Table K V) : Table K V :=
  ⟨m.entries.filter (fun e => p e.1 e.2), m.nodupKeys.sublist filter_sublist⟩

theorem keys_nodup (m : Table K V) : m.keys.Nodup := m.nodupKeys

theorem keys_eq_map_toList (m : Table K V) : m.keys = m.toList.map Prod.fst := by
  simp only [keys, AList.keys, List.keys, toList, map_map]
  rfl

theorem length_keys (m : Table K V) : m.keys.length = m.len := length_map _

variable [DecidableEq K]

def get (m : Table K V) (k : K) : Option V := AList.lookup k m

def insert (m : Table K V) (k : K) (v : V) : Table K V := AList.insert k v m

def erase (m : Table K V) (k : K) : Table K V := AList.erase k m

def contains (m : Table K V) (k : K) : Bool := (m.get k).isSome

/-- The last binding of a repeated key wins. -/
def ofList (l : List (K × V)) : Table K V := l.foldl (fun m e => m.insert e.1 e.2) ∅

@[simp] theorem get_empty (k : K) : (∅ : Table K V).get k = none := AList.lookup_empty k

@[simp] theorem get_insert_self (m : Table K V) (k : K) (v : V) :
    (m.insert k v).get k = some v := AList.lookup_insert m

variable {k k' : K} {m m' m₁ m₂ m₃ : Table K V} {l : List (K × V)} {v : V}

section
variable (m : Table K V)

theorem get_insert_ne (v : V) (h : k' ≠ k) :
    (m.insert k v).get k' = m.get k' := AList.lookup_insert_ne h

theorem get_insert (k k' : K) (v : V) :
    (m.insert k v).get k' = if k' = k then some v else m.get k' := by
  split_ifs with h
  · rw [h, get_insert_self]
  · exact get_insert_ne m v h

@[simp] theorem get_erase_self (k : K) : (m.erase k).get k = none := AList.lookup_erase k m

theorem get_erase_ne (m : Table K V) (h : k' ≠ k) :
    (m.erase k).get k' = m.get k' := AList.lookup_erase_ne h

theorem get_erase (k k' : K) :
    (m.erase k).get k' = if k' = k then none else m.get k' := by
  split_ifs with h
  · rw [h, get_erase_self]
  · exact get_erase_ne m h

theorem get_eq_some_iff (k : K) (v : V) : m.get k = some v ↔ (k, v) ∈ m.toList := by
  have h := AList.mem_lookup_iff (a := k) (b := v) (s := m)
  constructor
  · intro hg
    exact mem_map.mpr ⟨⟨k, v⟩, h.mp hg, rfl⟩
  · intro hm
    obtain ⟨⟨a, b⟩, he, hp⟩ := mem_map.mp hm
    obtain ⟨rfl, rfl⟩ := Prod.mk.inj hp
    exact h.mpr he

theorem mem_keys_iff (k : K) : k ∈ m.keys ↔ ∃ v, m.get k = some v := by
  rw [← Option.isSome_iff_exists]
  exact (AList.lookup_isSome (a := k) (s := m)).symm

theorem mem_values_iff (v : V) : v ∈ m.values ↔ ∃ k, m.get k = some v := by
  simp only [values, mem_map, Prod.exists, exists_eq_right, get_eq_some_iff]

theorem values_eq_map_keys (d : V) :
    m.values = m.keys.map (fun k => (m.get k).getD d) := by
  rw [keys_eq_map_toList, map_map]
  apply map_congr_left
  rintro ⟨k, v⟩ hm
  simp only [Function.comp_apply, (get_eq_some_iff m k v).mpr hm, Option.getD_some]

theorem len_erase (k : K) :
    (m.erase k).len = if (m.get k).isSome then m.len - 1 else m.len := by
  have hk : (m.erase k).keys = m.keys.erase k := AList.keys_erase k m
  rw [← length_keys, hk]
  cases hg : m.get k with
  | none =>
    have hn : k ∉ m.keys := by
      rw [mem_keys_iff]
      simp [hg]
    rw [erase_of_not_mem hn, length_keys]
    rfl
  | some v =>
    have hm : k ∈ m.keys := (mem_keys_iff m k).mpr ⟨v, hg⟩
    rw [length_erase_of_mem hm, length_keys]
    rfl

theorem len_insert (k : K) (v : V) : (m.insert k v).len = (m.erase k).len + 1 := by
  have hk : (m.insert k v).keys = k :: m.keys.erase k := AList.keys_insert m
  rw [← length_keys, hk, ← length_keys (m.erase k)]
  exact congrArg (·.length + 1) (AList.keys_erase k m).symm

end

theorem len_eq_of_get_eq (h : ∀ k, m.get k = m'.get k) : m.len = m'.len := by
  rw [← length_keys, ← length_keys]
  apply List.Perm.length_eq
  rw [perm_ext_iff_of_nodup m.keys_nodup m'.keys_nodup]
  intro k
  rw [mem_keys_iff, mem_keys_iff, h]

/-- Equality as maps, whatever the order of the entries. -/
def sameMap [DecidableEq V] (m m' : Table K V) : Bool :=
  m.toList.all (fun e => decide (m'.get e.1 = some e.2)) &&
    m'.toList.all (fun e => decide (m.get e.1 = some e.2))

theorem get_retain (p : K → V → Bool) (m : Table K V) (k : K) :
    (m.retain p).get k = (m.get k).filter (p k) := by
  apply Option.ext
  intro v
  rw [get_eq_some_iff, Option.filter_eq_some_iff, get_eq_some_iff]
  simp only [toList, retain, mem_map, mem_filter, Prod.mk.injEq]
  constructor
  · rintro ⟨⟨a, b⟩, ⟨he, hp⟩, rfl, rfl⟩
    exact ⟨⟨_, he, rfl, rfl⟩, hp⟩
  · rintro ⟨⟨⟨a, b⟩, he, rfl, rfl⟩, hp⟩
    exact ⟨_, ⟨he, hp⟩, rfl, rfl⟩

/-- Every binding of the first map is one of the second. -/
def Within (m' m : Table K V) : Prop := ∀ k v, m'.get k = some v → m.get k = some v

theorem Within.refl (m : Table K V) : Within m m := fun _ _ h => h

theorem Within.trans (h : Within m₁ m₂) (h' : Within m₂ m₃) : Within m₁ m₃ :=
  fun k v hk => h' k v (h k v hk)

theorem within_erase (m : Table K V) (k : K) : Within (m.erase k) m := by
  intro k' v h
  rw [get_erase] at h
  split_ifs at h
  exact h

theorem within_retain (p : K → V → Bool) (m : Table K V) : Within (m.retain p) m := by
  intro k v h
  rw [get_retain] at h
  exact (Option.filter_eq_some_iff.mp h).1

theorem get_insert_fresh (hf : m.get k = none) (v : V) (k' : K)
    (v' : V) : (m.insert k v).get k' = some v' ↔ k' = k ∧ v' = v ∨ m.get k' = some v' := by
  rw [get_insert]
  split_ifs with hk
  · subst hk
    simp [hf, eq_comm]
  · simp [hk]

theorem len_insert_fresh (hf : m.get k = none) (v : V) : (m.insert k v).len = m.len + 1 := by
  rw [len_insert, len_erase, hf]
  rfl

/-- Without repeated keys every binding of the list is kept. -/
theorem get_foldl_insert (l : List (K × V)) (hn : (l.map Prod.fst).Nodup) (m : Table K V)
    (k : K) (v : V) :
    (l.foldl (fun m e => m.insert e.1 e.2) m).get k = some v ↔
      (k, v) ∈ l ∨ (k ∉ l.map Prod.fst ∧ m.get k = some v) := by
  induction l generalizing m with
  | nil => simp
  | cons e l ih =>
    rw [map_cons, nodup_cons] at hn
    rw [foldl_cons, ih hn.2, get_insert]
    by_cases hk : k = e.1
    · subst hk
      have hm : (e.1, v) ∉ l := fun h => hn.1 (mem_map.mpr ⟨_, h, rfl⟩)
      simp [hn.1, hm, Prod.ext_iff, eq_comm]
    · simp [hk, Prod.ext_iff]

/-- Every entry of the table was in the list, also when keys repeat. -/
theorem mem_of_get_ofList (h : (ofList l).get k = some v) : (k, v) ∈ l := by
  suffices key : ∀ (l : List (K × V)) (m : Table K V),
      (l.foldl (fun m e => m.insert e.1 e.2) m).get k = some v → (k, v) ∈ l ∨ m.get k = some v by
    rcases key l ∅ h with hme | he
    · exact hme
    · rw [get_empty] at he
      cases he
  intro l
  induction l with
  | nil => exact fun m hm => .inr hm
  | cons e l ih =>
    intro m hm
    rcases ih (m.insert e.1 e.2) hm with hme | hin
    · exact .inl (mem_cons_of_mem _ hme)
    · rw [get_insert] at hin
      split_ifs at hin with hk
      · cases hin
        exact .inl (mem_cons.mpr (.inl (Prod.ext hk rfl)))
      · exact .inr hin

theorem contains_ofList (h : (k, v) ∈ l) : (ofList l).contains k = true := by
  suffices key : ∀ (l : List (K × V)) (m : Table K V), k ∈ l.map Prod.fst ∨ m.contains k = true →
      (l.foldl (fun m e => m.insert e.1 e.2) m).contains k = true from
    key l ∅ (.inl (mem_map.mpr ⟨(k, v), h, rfl⟩))
  intro l
  induction l with
  | nil => exact fun m hm => hm.resolve_left not_mem_nil
  | cons e l ih =>
    intro m hm
    refine ih _ ?_
    by_cases hk : k = e.1
    · rw [hk, contains, get_insert_self]
      exact .inr rfl
    · rw [contains, get_insert_ne _ _ hk]
      exact hm.imp_left (fun hme => (mem_cons.mp hme).resolve_left hk)

theorem get_ofList (l : List (K × V)) (hn : (l.map Prod.fst).Nodup) (k : K) (v : V) :
    (ofList l).get k = some v ↔ (k, v) ∈ l := by
  rw [ofList, get_foldl_insert l hn]
  simp

theorem len_ofList (l : List (K × V)) (hn : (l.map Prod.fst).Nodup) :
    (ofList l).len = l.length := by
  have hm : (l.map Prod.fst).length = l.length := length_map _
  rw [← length_keys, ← hm]
  apply List.Perm.length_eq
  rw [perm_ext_iff_of_nodup (keys_nodup _) hn]
  simp [mem_keys_iff, get_ofList l hn]

end Table
end AiGateway.Lib
