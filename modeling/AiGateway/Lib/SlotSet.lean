import AiGateway.Lib.PackedBits
import AiGateway.Lib.Table

/-! Sets of keys packed into words through a numbering of the keys. -/
namespace AiGateway.Lib.SlotSet
open PackedBits List

variable {K : Type} [DecidableEq K]

/-- The table gives each key it knows a slot of its own below its length. -/
structure Numbered (slots : Table K ℕ) : Prop where
  bound : ∀ k slot, slots.get k = some slot → slot < slots.len
  injective : ∀ k k' slot, slots.get k = some slot → slots.get k' = some slot → k = k'

section Positions
variable {ids : List K}

theorem get_positions (hn : ids.Nodup) (k : K) (slot : ℕ) :
    (Table.ofList ids.zipIdx).get k = some slot ↔ ids[slot]? = some k := by
  have hk : (ids.zipIdx.map Prod.fst).Nodup := by rwa [zipIdx_map_fst]
  rw [Table.get_ofList _ hk, mem_zipIdx_iff_getElem?]

theorem positions_known (hn : ids.Nodup) (k : K) :
    (∃ slot, (Table.ofList ids.zipIdx).get k = some slot) ↔ k ∈ ids := by
  simp only [get_positions hn, mem_iff_getElem?]

theorem numbered_positions (hn : ids.Nodup) : Numbered (Table.ofList ids.zipIdx) := by
  have hl : (Table.ofList ids.zipIdx).len = ids.length := by
    rw [Table.len_ofList _ (by rwa [zipIdx_map_fst]), length_zipIdx]
  constructor
  · intro k slot hk
    rw [get_positions hn] at hk
    obtain ⟨hlt, -⟩ := List.getElem?_eq_some_iff.mp hk
    omega
  · intro k k' slot hk hk'
    rw [get_positions hn] at hk hk'
    exact Option.some.inj (hk.symm.trans hk')

end Positions

variable {w slot : ℕ}

/-- The words hold the slots of exactly the keys in the set, all of them known. -/
structure Represents (slots : Table K ℕ) (words : List (BitVec w)) (S : Set K) : Prop where
  length : words.length = (zeros w slots.len).length
  known : ∀ k ∈ S, ∃ slot, slots.get k = some slot
  test_iff : ∀ slot, test words slot = true ↔ ∃ k ∈ S, slots.get k = some slot

namespace Represents
variable {slots : Table K ℕ} {words words' : List (BitVec w)} {S S' : Set K}

/-- Testing the slot of a key decides whether the key is in the set. -/
theorem test_key (hn : Numbered slots) (h : Represents slots words S) {k : K}
    (hk : slots.get k = some slot) : test words slot = true ↔ k ∈ S := by
  rw [h.test_iff]
  constructor
  · rintro ⟨k', hm, hk'⟩
    exact hn.injective k k' slot hk hk' ▸ hm
  · intro hm
    exact ⟨k, hm, hk⟩

theorem set_eq (hn : Numbered slots) (h : Represents slots words S)
    (h' : Represents slots words S') : S = S' := by
  ext k
  constructor
  · intro hm
    obtain ⟨slot, hk⟩ := h.known k hm
    exact (h'.test_key hn hk).mp ((h.test_key hn hk).mpr hm)
  · intro hm
    obtain ⟨slot, hk⟩ := h'.known k hm
    exact (h.test_key hn hk).mp ((h'.test_key hn hk).mpr hm)

variable [NeZero w]

theorem empty : Represents slots (zeros w slots.len) ∅ := by
  constructor
  · rfl
  · simp
  · simp [test_zeros]

theorem insert (hn : Numbered slots) (h : Represents slots words S) {k : K}
    (hk : slots.get k = some slot) :
    ∃ words', set? words slot = some words' ∧ Represents slots words' (Insert.insert k S) := by
  have hb : slot / w < words.length := h.length ▸ zeros_bound (hn.bound k slot hk)
  obtain ⟨words', hs⟩ := set?_of_lt hb
  refine ⟨words', hs, ?_, ?_, ?_⟩
  · rw [length_set? hs, h.length]
  · intro o hm
    rcases Set.mem_insert_iff.mp hm with rfl | hm
    · exact ⟨slot, hk⟩
    · exact h.known o hm
  · intro o
    rw [test_set? hs, h.test_iff]
    simp only [Set.mem_insert_iff, exists_eq_or_imp, hk, Option.some.injEq]
    exact or_congr_left eq_comm

theorem any_iff (h : Represents slots words S) : words.any (· != 0#w) = true ↔ S.Nonempty := by
  rw [any_ne_zero_iff]
  simp only [h.test_iff]
  constructor
  · rintro ⟨slot, k, hm, -⟩
    exact ⟨k, hm⟩
  · rintro ⟨k, hm⟩
    obtain ⟨slot, hk⟩ := h.known k hm
    exact ⟨slot, k, hm, hk⟩

theorem inter_iff (hn : Numbered slots) (h : Represents slots words S)
    (h' : Represents slots words' S') :
    (words.zip words').any (fun pair => pair.1 &&& pair.2 != 0#w) = true ↔ (S ∩ S').Nonempty := by
  rw [any_and_ne_zero_iff]
  constructor
  · rintro ⟨slot, ht, ht'⟩
    obtain ⟨k, hm, hk⟩ := (h.test_iff slot).mp ht
    exact ⟨k, hm, (h'.test_key hn hk).mp ht'⟩
  · rintro ⟨k, hm, hm'⟩
    obtain ⟨slot, hk⟩ := h.known k hm
    exact ⟨slot, (h.test_key hn hk).mpr hm, (h'.test_key hn hk).mpr hm'⟩

end Represents
end AiGateway.Lib.SlotSet
