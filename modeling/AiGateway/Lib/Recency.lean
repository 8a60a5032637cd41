import AiGateway.Lib.Table
import Mathlib.Tactic

/-! A map whose values carry increasing stamps, with a queue of (key, stamp) pairs that
is cleaned lazily: pairs whose stamp is no longer the one in the map are stale. -/
namespace AiGateway.Lib.Recency
open List Table

variable {K V : Type} (stamp : V → ℕ)

/-- The pairs of all entries, sorted by stamp. -/
def rebuild (entries : Table K V) : List (K × ℕ) :=
  (entries.toList.map (fun e => (e.1, stamp e.2))).insertionSort (fun a b => a.2 ≤ b.2)

theorem length_rebuild (es : Table K V) : (rebuild stamp es).length = es.len := by
  rw [rebuild, length_insertionSort, length_map, ← length_keys, keys_eq_map_toList, length_map]

variable [DecidableEq K]

/-- The value a queue pair still stands for. -/
def current (entries : Table K V) (pair : K × ℕ) : Option (K × V) :=
  match entries.get pair.1 with
  | some v => if stamp v = pair.2 then some (pair.1, v) else none
  | none => none

/-- The entries of the map in the order of their stamps, oldest first. -/
def contents (entries : Table K V) (queue : List (K × ℕ)) : List (K × V) :=
  queue.filterMap (current stamp entries)

/-- Drop pairs from the front, and the entries that are not stale with them, until the map
is small enough. -/
def popOldest (limit : ℕ) : List (K × ℕ) → Table K V → List (K × ℕ) × Table K V
  | [], entries => ([], entries)
  | pair :: queue, entries =>
    if limit < entries.len then
      popOldest limit queue
        (if (entries.get pair.1).any (fun v => decide (stamp v = pair.2)) then entries.erase pair.1
          else entries)
    else (pair :: queue, entries)

/-- The queue lists every entry, in the order of the stamps, none later than `last`. -/
structure Tracks (entries : Table K V) (queue : List (K × ℕ)) (last : ℕ) : Prop where
  sorted : queue.Pairwise (fun a b => a.2 < b.2)
  complete : ∀ k v, entries.get k = some v → (k, stamp v) ∈ queue
  le_last : ∀ pair ∈ queue, pair.2 ≤ last

variable {stamp} {es es' : Table K V} {queue : List (K × ℕ)} {last : ℕ} {pair : K × ℕ}
  {v : V}

theorem current_eq_some_iff {e : K × V} :
    current stamp es pair = some e ↔
      e.1 = pair.1 ∧ es.get pair.1 = some e.2 ∧ stamp e.2 = pair.2 := by
  unfold current
  cases hg : es.get pair.1 with
  | none => simp
  | some v =>
    dsimp only
    split_ifs with hs
    · rw [Option.some.injEq, Option.some.injEq]
      constructor
      · rintro rfl
        exact ⟨rfl, rfl, hs⟩
      · rintro ⟨hk, hv, -⟩
        exact Prod.ext hk.symm hv
    · simp only [false_iff, Option.some.injEq]
      rintro ⟨-, rfl, hs'⟩
      exact hs hs'

theorem mem_contents_iff (h : Tracks stamp es queue last) (k : K) (v : V) :
    (k, v) ∈ contents stamp es queue ↔ es.get k = some v := by
  simp only [contents, mem_filterMap, current_eq_some_iff]
  constructor
  · rintro ⟨pair, -, rfl, hg, -⟩
    exact hg
  · intro hg
    exact ⟨(k, stamp v), h.complete k v hg, rfl, hg, rfl⟩

theorem contents_sorted (es : Table K V) (h : queue.Pairwise (fun a b => a.2 < b.2)) :
    (contents stamp es queue).Pairwise (fun a b => stamp a.2 < stamp b.2) := by
  refine List.Pairwise.filterMap _ ?_ h
  intro a a' hlt b hb b' hb'
  have hs := (current_eq_some_iff.mp hb).2.2
  have hs' := (current_eq_some_iff.mp hb').2.2
  omega

theorem contents_keys_nodup (h : Tracks stamp es queue last) :
    ((contents stamp es queue).map Prod.fst).Nodup := by
  rw [List.Nodup, pairwise_map]
  refine (contents_sorted es h.sorted).imp_of_mem ?_
  rintro ⟨k, v⟩ ⟨k', v'⟩ hm hm' hlt heq
  obtain rfl : k = k' := heq
  rw [mem_contents_iff h] at hm hm'
  obtain rfl : v = v' := Option.some.inj (hm.symm.trans hm')
  exact lt_irrefl _ hlt

theorem length_contents (h : Tracks stamp es queue last) :
    (contents stamp es queue).length = es.len := by
  rw [← length_keys, ← length_map (f := Prod.fst)]
  apply List.Perm.length_eq
  rw [perm_ext_iff_of_nodup (contents_keys_nodup h) es.keys_nodup]
  intro k
  rw [mem_keys_iff, mem_map]
  constructor
  · rintro ⟨⟨k', v⟩, hm, rfl⟩
    exact ⟨v, (mem_contents_iff h _ _).mp hm⟩
  · rintro ⟨v, hv⟩
    exact ⟨(k, v), (mem_contents_iff h _ _).mpr hv, rfl⟩

/-- Narrowing the map narrows the contents, with the queue left as it is. -/
theorem contents_filter {p : K → V → Bool} (hg : ∀ k, es'.get k = (es.get k).filter (p k))
    (queue : List (K × ℕ)) :
    contents stamp es' queue = (contents stamp es queue).filter (fun e => p e.1 e.2) := by
  unfold contents
  rw [filter_filterMap]
  apply filterMap_congr
  intro pair _
  unfold current
  rw [hg]
  cases es.get pair.1 with
  | none => rfl
  | some v =>
    by_cases hp : p pair.1 v = true <;> by_cases hs : stamp v = pair.2 <;>
      simp [Option.filter, hp, hs]

theorem Tracks.filter {p : K → V → Bool} (h : Tracks stamp es queue last)
    (hg : ∀ k, es'.get k = (es.get k).filter (p k)) :
    Tracks stamp es' queue last := by
  refine ⟨h.sorted, fun k v hv => ?_, h.le_last⟩
  rw [hg, Option.filter_eq_some_iff] at hv
  exact h.complete k v hv.1

theorem get_erase_eq_filter (es : Table K V) (k k' : K) :
    (es.erase k).get k' = (es.get k').filter (fun _ => decide (k' ≠ k)) := by
  rw [get_erase]
  cases es.get k' <;> by_cases hk : k' = k <;> simp [Option.filter, hk]

/-- A value stamped later than everything before moves its key to the end. -/
theorem contents_push (h : Tracks stamp es queue last) (k : K) (hv : stamp v = last + 1) :
    contents stamp (es.insert k v) (queue ++ [(k, stamp v)]) =
      (contents stamp es queue).filter (fun e => decide (e.1 ≠ k)) ++ [(k, v)] := by
  unfold contents
  rw [filterMap_append, filter_filterMap]
  congr 1
  · apply filterMap_congr
    intro pair hp
    have hle := h.le_last pair hp
    unfold current
    rw [get_insert]
    split_ifs with hk
    · have hst : stamp v ≠ pair.2 := by omega
      cases es.get pair.1 with
      | none => simp [hst]
      | some u => by_cases hs : stamp u = pair.2 <;> simp [Option.filter, hk, hs, hst]
    · cases es.get pair.1 with
      | none => rfl
      | some u => by_cases hs : stamp u = pair.2 <;> simp [Option.filter, hk, hs]
  · simp [current]

theorem Tracks.push (h : Tracks stamp es queue last) (k : K) (hv : stamp v = last + 1) :
    Tracks stamp (es.insert k v) (queue ++ [(k, stamp v)]) (last + 1) := by
  refine ⟨?_, ?_, ?_⟩
  · rw [pairwise_append]
    refine ⟨h.sorted, pairwise_singleton _ _, ?_⟩
    intro pair hp new hn
    rw [mem_singleton.mp hn]
    have hle := h.le_last pair hp
    omega
  · intro k' v' hg
    rw [get_insert] at hg
    split_ifs at hg with hk
    · cases hg
      exact mem_append_right _ (hk ▸ mem_singleton_self _)
    · exact mem_append_left _ (h.complete k' v' hg)
  · intro pair hp
    rcases mem_append.mp hp with hp | hp
    · exact (h.le_last pair hp).trans (Nat.le_succ _)
    · rw [mem_singleton.mp hp]
      exact hv.le

section
variable (h : Tracks stamp es (pair :: queue) last)
include h

theorem Tracks.tail (hs : ∀ v, es.get pair.1 = some v → stamp v ≠ pair.2) :
    Tracks stamp es queue last := by
  refine ⟨h.sorted.of_cons, fun k v hv => ?_, fun p hp => h.le_last p (mem_cons_of_mem _ hp)⟩
  rcases mem_cons.mp (h.complete k v hv) with heq | hm
  · subst heq
    exact absurd rfl (hs v hv)
  · exact hm

theorem Tracks.erase_head :
    Tracks stamp (es.erase pair.1) queue last := by
  refine (h.filter (get_erase_eq_filter es pair.1)).tail (fun v hv => ?_)
  rw [get_erase_self] at hv
  cases hv

/-- The head of the contents goes with its pair, and nothing else. -/
theorem contents_erase_head (hv : es.get pair.1 = some v) (hs : stamp v = pair.2) :
    contents stamp es (pair :: queue) = (pair.1, v) :: contents stamp (es.erase pair.1) queue := by
  have hc : current stamp es pair = some (pair.1, v) := current_eq_some_iff.mpr ⟨rfl, hv, hs⟩
  have hsp : contents stamp es (pair :: queue) =
      (pair.1, v) :: contents stamp es queue := filterMap_cons_some hc
  have hn := contents_keys_nodup h
  rw [hsp, map_cons, nodup_cons] at hn
  rw [hsp, contents_filter (get_erase_eq_filter es pair.1), filter_eq_self.mpr]
  intro e he
  rw [decide_eq_true_eq]
  rintro heq
  exact hn.1 (heq ▸ mem_map_of_mem he)

end

theorem contents_stale_head (hs : ∀ v, es.get pair.1 = some v → stamp v ≠ pair.2) :
    contents stamp es (pair :: queue) = contents stamp es queue := by
  apply filterMap_cons_none
  unfold current
  cases hv : es.get pair.1 with
  | none => rfl
  | some v => exact if_neg (hs v hv)

/-- Popping removes exactly the oldest entries beyond the limit. -/
theorem popOldest_spec (limit : ℕ) (h : Tracks stamp es queue last) :
    Tracks stamp (popOldest stamp limit queue es).2 (popOldest stamp limit queue es).1 last ∧
      contents stamp (popOldest stamp limit queue es).2 (popOldest stamp limit queue es).1 =
        (contents stamp es queue).drop (es.len - limit) ∧
      (popOldest stamp limit queue es).2.len ≤ limit := by
  induction queue generalizing es with
  | nil =>
    have hln : es.len = 0 := (length_contents h).symm
    refine ⟨h, ?_, ?_⟩
    · exact (drop_nil).symm
    · show es.len ≤ limit
      omega
  | cons pair queue ih =>
    unfold popOldest
    split_ifs with hov hl
    · obtain ⟨v, hv, hs⟩ := (Option.any_eq_true _ _).mp hl
      have hs : stamp v = pair.2 := of_decide_eq_true hs
      have hln : (es.erase pair.1).len = es.len - 1 := by
        rw [len_erase, hv]
        rfl
      obtain ⟨ht, hc, hle⟩ := ih h.erase_head
      refine ⟨ht, ?_, hle⟩
      rw [hc, contents_erase_head h hv hs, hln,
        show es.len - limit = es.len - 1 - limit + 1 by omega, drop_succ_cons]
    · have hst : ∀ v, es.get pair.1 = some v → stamp v ≠ pair.2 := by
        intro v hv hs
        exact hl ((Option.any_eq_true _ _).mpr ⟨v, hv, decide_eq_true hs⟩)
      rw [contents_stale_head hst]
      exact ih (h.tail hst)
    · refine ⟨h, ?_, not_lt.mp hov⟩
      rw [Nat.sub_eq_zero_of_le (not_lt.mp hov), drop_zero]

theorem popOldest_within (limit : ℕ) (queue : List (K × ℕ)) (es : Table K V) :
    Table.Within (popOldest stamp limit queue es).2 es := by
  induction queue generalizing es with
  | nil => exact .refl es
  | cons pair queue ih =>
    unfold popOldest
    split_ifs
    · exact (ih _).trans (within_erase es pair.1)
    · exact ih es
    · exact .refl es

theorem popOldest_of_le {limit : ℕ} (hle : es.len ≤ limit) (queue : List (K × ℕ)) :
    popOldest stamp limit queue es = (queue, es) := by
  cases queue with
  | nil => rfl
  | cons pair queue => exact if_neg (not_lt.mpr hle)

theorem Tracks.pair_eq (h : Tracks stamp es queue last) {a b : K × ℕ} (ha : a ∈ queue)
    (hb : b ∈ queue) (hs : a.2 = b.2) : a = b := by
  have hn : (queue.map Prod.snd).Nodup :=
    pairwise_map.mpr (h.sorted.imp (fun hlt => Nat.ne_of_lt hlt))
  exact inj_on_of_nodup_map hn ha hb hs

/-- Rebuilding the queue keeps exactly the pairs that are not stale. -/
theorem rebuild_eq (h : Tracks stamp es queue last) :
    rebuild stamp es = (contents stamp es queue).map (fun e => (e.1, stamp e.2)) := by
  have hl : ∀ e ∈ contents stamp es queue, (e.1, stamp e.2) ∈ queue := fun e he =>
    h.complete e.1 e.2 ((mem_contents_iff h e.1 e.2).mp he)
  have hk : (es.toList.map Prod.fst).Nodup := es.keys_eq_map_toList ▸ es.keys_nodup
  have hp : es.toList.Perm (contents stamp es queue) := by
    rw [perm_ext_iff_of_nodup hk.of_map (contents_keys_nodup h).of_map]
    rintro ⟨k, v⟩
    rw [mem_contents_iff h, get_eq_some_iff]
  have hm : (rebuild stamp es).Perm
      ((contents stamp es queue).map (fun e => (e.1, stamp e.2))) :=
    (perm_insertionSort _ _).trans (hp.map _)
  have hme : ∀ a ∈ (contents stamp es queue).map (fun e => (e.1, stamp e.2)), a ∈ queue := by
    intro a ha
    obtain ⟨e, he, rfl⟩ := mem_map.mp ha
    exact hl e he
  refine @List.Perm.eq_of_pairwise _ (fun a b => a.2 ≤ b.2) _ _ ?_ ?_ ?_ hm
  · intro a b ha hb hab hba
    exact h.pair_eq (hme a (hm.mem_iff.mp ha)) (hme b hb) (le_antisymm hab hba)
  · have ht : Std.Total (fun a b : K × ℕ => a.2 ≤ b.2) := ⟨fun a b => le_total a.2 b.2⟩
    exact pairwise_insertionSort _ _
  · rw [pairwise_map]
    exact (contents_sorted es h.sorted).imp (fun hab => Nat.le_of_lt hab)

theorem contents_map_pairs {l : List (K × V)} (hl : ∀ e ∈ l, es.get e.1 = some e.2) :
    contents stamp es (l.map (fun e => (e.1, stamp e.2))) = l := by
  unfold contents
  rw [filterMap_map]
  have hs : ∀ e ∈ l, (current stamp es ∘ fun e => (e.1, stamp e.2)) e = some e :=
    fun e he => current_eq_some_iff.mpr ⟨rfl, hl e he, rfl⟩
  rw [filterMap_congr hs, filterMap_some]

theorem contents_rebuild (h : Tracks stamp es queue last) :
    contents stamp es (rebuild stamp es) = contents stamp es queue := by
  rw [rebuild_eq h]
  exact contents_map_pairs (fun e he => (mem_contents_iff h e.1 e.2).mp he)

theorem Tracks.rebuild (h : Tracks stamp es queue last) :
    Tracks stamp es (rebuild stamp es) last := by
  rw [rebuild_eq h]
  refine ⟨?_, ?_, ?_⟩
  · rw [pairwise_map]
    exact contents_sorted es h.sorted
  · intro k v hv
    exact mem_map.mpr ⟨(k, v), (mem_contents_iff h k v).mpr hv, rfl⟩
  · intro pair hp
    obtain ⟨e, he, rfl⟩ := mem_map.mp hp
    exact h.le_last _ (h.complete e.1 e.2 ((mem_contents_iff h e.1 e.2).mp he))

end AiGateway.Lib.Recency
