import AiGateway.Lib.JsonPath
import AiGateway.Streaming.Adapter

/-! What the projection of protected fields tells of a value: the values at protected keys, wherever
they are, and the lengths of the arrays above them. -/
namespace AiGateway.Streaming
open Lib Lib.Json Lib.Stage List

def IsProtected (key : Bytes) : Prop := protectedKeys.contains key = true

/-- A path through array positions and unprotected keys. -/
def Unprotected (path : List Step) : Prop := ∀ key, .member key ∈ path → ¬ IsProtected key

/-- Some protected key is somewhere in the value. -/
def HoldsProtected (value : Json) : Prop :=
  ∃ path key, Unprotected path ∧ IsProtected key ∧ (value.reach path).get key ≠ none

section Projection
variable {v : Json} {key : Bytes} {ms : List (Bytes × Json)} {path : List Step}
  {step : Step}

theorem unprotected_nil : Unprotected [] := fun _ hm => absurd hm not_mem_nil

theorem unprotected_cons : Unprotected (step :: path) ↔ Unprotected [step] ∧ Unprotected path := by
  unfold Unprotected
  simp only [mem_cons, not_mem_nil, or_false, or_imp, forall_and]

theorem unprotected_item (i : ℕ) : Unprotected [.item i] := by
  intro key hm
  cases mem_singleton.mp hm

theorem unprotected_member (h : ¬ IsProtected key) : Unprotected [.member key] := by
  intro o hm
  cases mem_singleton.mp hm
  exact h

theorem protectedItems_eq_map (items : List Json) :
    protectedItems items = items.map protectedFields := by
  induction items with
  | nil => rfl
  | cons item items ih => rw [protectedItems, ih, map_cons]

def keptMember (key : Bytes) (value : Json) : Option Json :=
  if protectedKeys.contains key then some value
  else if (protectedFields value).isNull then none else some (protectedFields value)

theorem protectedMembers_cons (key : Bytes) (v : Json) (ms : List (Bytes × Json)) :
    protectedMembers ((key, v) :: ms) =
      ((keptMember key v).map (key, ·)).toList ++ protectedMembers ms := by
  rw [protectedMembers, keptMember]
  dsimp only
  split_ifs <;> rfl

theorem keys_protectedMembers (ms : List (Bytes × Json)) :
    ((protectedMembers ms).map Prod.fst).Sublist (ms.map Prod.fst) := by
  induction ms with
  | nil => exact .slnil
  | cons member ms ih =>
    rw [protectedMembers_cons]
    cases keptMember member.1 member.2 with
    | none => exact ih.cons _
    | some kept => exact ih.cons_cons _

theorem lookup_protectedMembers (hk : (ms.map Prod.fst).Pairwise (· < ·)) (key : Bytes) :
    (protectedMembers ms).lookup key = (ms.lookup key).bind (keptMember key) := by
  induction ms with
  | nil => rfl
  | cons member ms ih =>
    rw [map_cons, pairwise_cons] at hk
    rw [protectedMembers_cons, lookup_append, lookup_cons, ih hk.2]
    by_cases heq : key = member.1
    · subst heq
      rw [lookup_eq_none_of_lt hk.1]
      cases hke : keptMember member.1 member.2 <;> simp [hke]
    · rw [beq_false_of_ne heq]
      cases keptMember member.1 member.2 <;> simp [lookup_cons, beq_false_of_ne heq]

theorem get_protectedFields (h : Ordered v) (key : Bytes) :
    (protectedFields v).get key = (v.get key).bind (keptMember key) := by
  cases h with
  | null | bool _ | number _ | string _ => rfl
  | array _ =>
    rw [protectedFields]
    split_ifs <;> rfl
  | object hk _ =>
    rw [Json.get, ← lookup_protectedMembers hk, protectedFields]
    split_ifs with he
    · rw [isEmpty_iff.mp he]
      rfl
    · rfl

theorem keptMember_of_protected (h : IsProtected key) : keptMember key = some :=
  funext fun _ => if_pos h

theorem keptMember_of_unprotected (h : ¬ IsProtected key) (v : Json) : keptMember key v =
    if (protectedFields v).isNull then none else some (protectedFields v) := if_neg h

theorem getD_keptMember (h : ¬ IsProtected key) (v : Json) :
    (keptMember key v).getD .null = protectedFields v := by
  rw [keptMember_of_unprotected h]
  cases protectedFields v <;> rfl

/-- The projection of an array has a place for each of its items, or nothing in any of them. -/
theorem protectedFields_array (items : List Json) :
    protectedFields (.array items) = .array (items.map protectedFields) ∨
      protectedFields (.array items) = .null ∧ ∀ item ∈ items, protectedFields item = .null := by
  rw [protectedFields, protectedItems_eq_map]
  split_ifs with ha
  · exact .inl rfl
  · refine .inr ⟨rfl, fun item hit => ?_⟩
    simp only [any_map, any_eq_true, Function.comp_apply, not_exists, not_and] at ha
    have hn := ha item hit
    cases hp : protectedFields item with
    | null => rfl
    | _ => simp [hp, Json.isNull] at hn

/-- Behind an unprotected step is the projection of what was there. -/
theorem under_protectedFields (h : Ordered v) (hs : Unprotected [step]) :
    (protectedFields v).under step = protectedFields (v.under step) := by
  cases step with
  | member key =>
    have hke : ¬ IsProtected key := hs key mem_cons_self
    change ((protectedFields v).get key).getD .null = protectedFields ((v.get key).getD .null)
    rw [get_protectedFields h key]
    cases v.get key with
    | none => rfl
    | some child => exact getD_keptMember hke child
  | item i =>
    cases h with
    | null | bool _ | number _ | string _ => rfl
    | object _ _ =>
      rw [protectedFields]
      split_ifs <;> rfl
    | @array items _ =>
      change _ = protectedFields (items[i]?.getD .null)
      rcases protectedFields_array items with hk | ⟨hnu, hn⟩
      · rw [hk]
        change (items.map protectedFields)[i]?.getD .null = _
        rw [List.getElem?_map]
        cases items[i]? <;> rfl
      · rw [hnu]
        cases hit : items[i]? with
        | none => rfl
        | some item => exact (hn item (mem_of_getElem? hit)).symm

theorem reach_protectedFields (h : Ordered v) (hp : Unprotected path) :
    (protectedFields v).reach path = protectedFields (v.reach path) := by
  induction path generalizing v with
  | nil => rfl
  | cons step path ih =>
    obtain ⟨hs, hp⟩ := unprotected_cons.mp hp
    change ((protectedFields v).under step).reach path = _
    rw [under_protectedFields h hs]
    exact ih (h.under step) hp

theorem get_reach_protectedFields (h : Ordered v) (hp : Unprotected path)
    (hk : IsProtected key) :
    ((protectedFields v).reach path).get key = (v.reach path).get key := by
  rw [reach_protectedFields h hp, get_protectedFields (h.reach path), keptMember_of_protected hk,
    Option.bind_fun_some]

theorem HoldsProtected.of_under (hs : Unprotected [step]) (h : HoldsProtected (v.under step)) :
    HoldsProtected v := by
  obtain ⟨path, key, hp, hk, hat⟩ := h
  exact ⟨step :: path, key, unprotected_cons.mpr ⟨hs, hp⟩, hk, hat⟩

theorem reach_null (path : List Step) : Json.null.reach path = .null := by
  induction path with
  | nil => rfl
  | cons step path ih => cases step <;> exact ih

/-- Only a value without protected keys is projected to null. -/
theorem holdsProtected_iff (h : Ordered v) :
    HoldsProtected v ↔ protectedFields v ≠ .null := by
  constructor
  · rintro ⟨path, key, hp, hk, hat⟩ hn
    rw [← get_reach_protectedFields h hp hk, hn, reach_null] at hat
    exact hat rfl
  · intro hn
    induction h with
    | null | bool _ | number _ | string _ => exact absurd rfl hn
    | @array items _ ih =>
      rcases protectedFields_array items with hke | ⟨hno, -⟩
      · by_contra hh
        have him : ∀ item ∈ items, protectedFields item = .null := by
          intro item hit
          by_contra hne
          obtain ⟨i, hin⟩ := List.getElem?_of_mem hit
          refine hh (.of_under (unprotected_item i) ?_)
          change HoldsProtected (items[i]?.getD .null)
          rw [hin]
          exact ih item hit hne
        refine hn ?_
        rw [protectedFields, protectedItems_eq_map, map_congr_left him]
        simp [Json.isNull]
      · exact absurd hno hn
    | @object ms hky _ ih =>
      cases hke : protectedMembers ms with
      | nil => exact absurd (by rw [protectedFields, hke]; rfl) hn
      | cons e rest =>
        have hl := lookup_protectedMembers hky e.1
        rw [hke, lookup_cons_self] at hl
        obtain ⟨child, hc, he⟩ := Option.bind_eq_some_iff.mp hl.symm
        by_cases hk : IsProtected e.1
        · refine ⟨[], e.1, unprotected_nil, hk, ?_⟩
          change ms.lookup e.1 ≠ none
          rw [hc]
          exact Option.some_ne_none _
        · refine .of_under (unprotected_member hk) ?_
          change HoldsProtected ((ms.lookup e.1).getD .null)
          rw [hc]
          obtain ⟨pre, after, rfl, -⟩ := lookup_eq_some_iff.mp hc
          refine ih (e.1, child) (mem_append_right _ mem_cons_self) (fun heq => ?_)
          rw [keptMember_of_unprotected hk, heq] at he
          cases he

end Projection

/-- The values agree at every protected key. -/
def Agree (a b : Json) : Prop := ∀ path key, Unprotected path → IsProtected key →
  Option.Rel Same ((a.reach path).get key) ((b.reach path).get key)

/-- Arrays above a protected key are of one length. -/
def SameLengths (a b : Json) : Prop := ∀ path items items', Unprotected path →
  a.reach path = .array items → b.reach path = .array items' →
    HoldsProtected (.array items) → items.length = items'.length

section Agreement
variable {a b : Json}

theorem Agree.under (h : Agree a b) {step : Step} (hs : Unprotected [step]) :
    Agree (a.under step) (b.under step) :=
  fun path key hp hk => h (step :: path) key (unprotected_cons.mpr ⟨hs, hp⟩) hk

theorem SameLengths.under (h : SameLengths a b) {step : Step} (hs : Unprotected [step]) :
    SameLengths (a.under step) (b.under step) :=
  fun path items items' hp => h (step :: path) items items' (unprotected_cons.mpr ⟨hs, hp⟩)

theorem Agree.holds_iff (h : Agree a b) : HoldsProtected a ↔ HoldsProtected b := by
  have hn : ∀ path key, Unprotected path → IsProtected key →
      ((a.reach path).get key ≠ none ↔ (b.reach path).get key ≠ none) := by
    intro path key hp hk
    generalize (a.reach path).get key = x, (b.reach path).get key = y, h path key hp hk = hr
    cases hr <;> simp
  refine exists_congr fun path => exists_congr fun key => ?_
  exact and_congr_right fun hp => and_congr_right fun hk => hn path key hp hk

theorem agree_of_same (ha : Ordered a) (hb : Ordered b)
    (h : Same (protectedFields a) (protectedFields b)) : Agree a b := by
  intro path key hp hk
  rw [← get_reach_protectedFields ha hp hk, ← get_reach_protectedFields hb hp hk]
  exact (h.reach path).rel_get key

theorem protectedFields_array_of_holds {items : List Json} (h : Ordered (.array items))
    (hh : HoldsProtected (.array items)) :
    protectedFields (.array items) = .array (items.map protectedFields) := by
  rcases protectedFields_array items with hk | ⟨hn, -⟩
  · exact hk
  · exact absurd hn ((holdsProtected_iff h).mp hh)

theorem protectedFields_object_of_holds {ms : List (Bytes × Json)}
    (h : Ordered (.object ms)) (hh : HoldsProtected (.object ms)) :
    protectedFields (.object ms) = .object (protectedMembers ms) := by
  have hn := (holdsProtected_iff h).mp hh
  rw [protectedFields] at hn ⊢
  split_ifs at hn ⊢
  · contradiction
  · rfl

theorem sameLengths_of_same (ha : Ordered a) (hb : Ordered b)
    (h : Same (protectedFields a) (protectedFields b)) : SameLengths a b := by
  intro path items items' hp hit hi' hh
  have hs := h.reach path
  rw [reach_protectedFields ha hp, reach_protectedFields hb hp, hit, hi',
    protectedFields_array_of_holds (hit ▸ ha.reach path) hh] at hs
  rcases protectedFields_array items' with hk | ⟨hn, -⟩
  · rw [hk, same_array] at hs
    have hl := hs.length_eq
    rwa [length_map, length_map] at hl
  · rw [hn] at hs
    cases hs

theorem same_null_of_not_holds (ha : Ordered a) (hb : Ordered b) (h : Agree a b)
    (hh : ¬ HoldsProtected a) : Same (protectedFields a) (protectedFields b) := by
  have hn : protectedFields a = .null := not_not.mp (mt (holdsProtected_iff ha).mpr hh)
  have hn' : protectedFields b = .null :=
    not_not.mp (mt (holdsProtected_iff hb).mpr (mt h.holds_iff.mpr hh))
  rw [hn, hn']
  rfl

/-- A protected key is behind an item of an array or a member of an object. -/
theorem HoldsProtected.same_kind (ha : HoldsProtected a) (h : Agree a b) :
    (∃ items items', a = .array items ∧ b = .array items') ∨
      ∃ ms ms', a = .object ms ∧ b = .object ms' := by
  obtain ⟨path, key, hp, hk, hat⟩ := ha
  have hr := h path key hp hk
  have hat' : (b.reach path).get key ≠ none := by
    intro hno
    rw [hno] at hr
    generalize (a.reach path).get key = found at hat hr
    cases hr
    exact hat rfl
  cases path with
  | nil => cases a <;> cases b <;> first | exact absurd rfl hat | exact absurd rfl hat' | simp
  | cons step path =>
    have hn : ∀ v : Json, v.under step = .null → (v.reach (step :: path)).get key = none := by
      intro v hu
      change ((v.under step).reach path).get key = none
      rw [hu, reach_null]
      rfl
    cases step <;> cases a <;> cases b <;>
      first | exact absurd (hn _ rfl) hat | exact absurd (hn _ rfl) hat' | simp

theorem rel_keptMember {key : Bytes} {x y : Option Json} (hke : ¬ IsProtected key)
    (h : Same (protectedFields (x.getD .null)) (protectedFields (y.getD .null))) :
    Option.Rel Same (x.bind (keptMember key)) (y.bind (keptMember key)) := by
  have hk : ∀ found : Option Json, found.bind (keptMember key) =
      if (protectedFields (found.getD .null)).isNull then none
      else some (protectedFields (found.getD .null)) := by
    rintro (_ | child)
    · rfl
    · exact keptMember_of_unprotected hke child
  rw [hk, hk, ← h.isNull_eq]
  split_ifs
  · exact .none
  · exact .some h

theorem under_item {items : List Json} {i : ℕ} (h : i < items.length) :
    (Json.array items).under (.item i) = items[i] := by
  change items[i]?.getD .null = _
  rw [List.getElem?_eq_getElem h, Option.getD_some]

theorem same_of_agree (ha : Ordered a) (hb : Ordered b) (h : Agree a b) (hl : SameLengths a b) :
    Same (protectedFields a) (protectedFields b) := by
  induction ha generalizing b with
  | null | bool _ | number _ | string _ =>
    refine same_null_of_not_holds (by constructor) hb h (fun hh => ?_)
    rcases hh.same_kind h with ⟨_, _, hk, -⟩ | ⟨_, _, hk, -⟩ <;> cases hk
  | @array items hit ih =>
    by_cases hh : HoldsProtected (.array items)
    · rcases hh.same_kind h with ⟨_, items', -, rfl⟩ | ⟨_, _, hk, -⟩
      · have hln := hl [] items items' unprotected_nil rfl rfl hh
        rw [protectedFields_array_of_holds (.array hit) hh,
          protectedFields_array_of_holds hb (h.holds_iff.mp hh), same_array,
          forall₂_map_left_iff, forall₂_map_right_iff, forall₂_iff_get]
        refine ⟨hln, fun i hlt hlt' => ?_⟩
        have hag := h.under (unprotected_item i)
        have hle := hl.under (unprotected_item i)
        have hor := hb.under (.item i)
        rw [under_item hlt'] at hag hle hor
        rw [under_item hlt] at hag hle
        exact ih _ (get_mem items ⟨i, hlt⟩) hor hag hle
      · cases hk
    · exact same_null_of_not_holds (.array hit) hb h hh
  | @object ms hky hm ih =>
    have ha : Ordered (.object ms) := .object hky hm
    by_cases hh : HoldsProtected (.object ms)
    · rcases hh.same_kind h with ⟨_, _, hk, -⟩ | ⟨_, ms', -, rfl⟩
      · cases hk
      · rw [protectedFields_object_of_holds ha hh,
          protectedFields_object_of_holds hb (h.holds_iff.mp hh), same_object]
        cases hb with
        | object hk' hm' =>
          refine forall₂_of_rel_lookup (hky.sublist (keys_protectedMembers ms))
            (hk'.sublist (keys_protectedMembers ms')) (fun key => ?_)
          rw [lookup_protectedMembers hky, lookup_protectedMembers hk']
          by_cases hke : IsProtected key
          · rw [keptMember_of_protected hke, Option.bind_fun_some, Option.bind_fun_some]
            exact h [] key unprotected_nil hke
          · refine rel_keptMember hke ?_
            have hs := unprotected_member hke
            have hag := h.under hs
            have hle := hl.under hs
            have hor := Ordered.under (.object hk' hm') (.member key)
            change Agree ((ms.lookup key).getD .null) _ at hag
            change SameLengths ((ms.lookup key).getD .null) _ at hle
            cases hc : ms.lookup key with
            | none =>
              rw [hc] at hag
              refine same_null_of_not_holds .null hor hag ?_
              exact fun hh => (holdsProtected_iff .null).mp hh rfl
            | some child =>
              rw [hc] at hag hle
              obtain ⟨pre, after, rfl, -⟩ := lookup_eq_some_iff.mp hc
              exact ih (key, child) (mem_append_right _ mem_cons_self) hor hag hle
    · exact same_null_of_not_holds ha hb h hh

end Agreement

theorem parse_of_object {codec : JsonCodec} {body : Bytes} {v : Json}
    (h : object codec body = .ok v) : codec.parse body = some v := by
  obtain ⟨parsed, hp, h⟩ := bind_eq_ok.mp h
  obtain ⟨_, _, h⟩ := bind_eq_ok.mp h
  cases h
  exact orReject_eq_ok.mp hp

/-- Equal projections are equal values at the protected keys, under arrays of equal length; what a
response plugin answers agrees with its input there. -/
theorem protected_fields_agree :
    (∀ a b, Ordered a → Ordered b →
      (Same (protectedFields a) (protectedFields b) ↔ Agree a b ∧ SameLengths a b)) ∧
    ∀ codec : JsonCodec,
      (∀ config status body output,
        ResponseAdapterConfig.adaptJson codec config status body = .ok output →
          ∃ before after, codec.parse body = some before ∧ codec.parse output = some after ∧
            Agree before after) ∧
      ∀ input output, trim input.data ≠ utf8 "[DONE]" → validateEvents codec input output = .ok ⟨⟩ →
        ∃ before, codec.parse input.data = some before ∧ ∀ event ∈ output,
          ∃ after, codec.parse event.data = some after ∧ Agree after before := by
  refine ⟨fun a b ha hb => ⟨fun h => ⟨agree_of_same ha hb h, sameLengths_of_same ha hb h⟩,
    fun h => same_of_agree ha hb h.1 h.2⟩, fun codec => ⟨?_, ?_⟩⟩
  · intro config status body output h
    obtain ⟨_, _, h⟩ := bind_eq_ok.mp h
    obtain ⟨before, hbe, h⟩ := bind_eq_ok.mp h
    obtain ⟨⟨metadata, answer⟩, _, h⟩ := bind_eq_ok.mp h
    obtain ⟨_, _, h⟩ := bind_eq_ok.mp h
    obtain ⟨after, haf, h⟩ := bind_eq_ok.mp h
    obtain ⟨_, hs, h⟩ := bind_eq_ok.mp h
    cases h
    have hbe := parse_of_object hbe
    have haf := parse_of_object haf
    exact ⟨before, after, hbe, haf, agree_of_same (codec.ordered _ _ hbe) (codec.ordered _ _ haf)
      (ensure_eq_ok.mp hs)⟩
  · intro input output hd h
    rw [validateEvents, if_neg hd] at h
    obtain ⟨before, hbe, h⟩ := bind_eq_ok.mp h
    obtain ⟨_, _, h⟩ := bind_eq_ok.mp h
    have hbe := parse_of_object hbe
    refine ⟨before, hbe, fun event he => ?_⟩
    obtain ⟨_, _, h⟩ := bind_eq_ok.mp (forM_eq_ok.mp h event he)
    obtain ⟨after, haf, hs⟩ := bind_eq_ok.mp h
    have haf := parse_of_object haf
    exact ⟨after, haf, agree_of_same (codec.ordered _ _ haf) (codec.ordered _ _ hbe)
      (ensure_eq_ok.mp hs)⟩

end AiGateway.Streaming
