import AiGateway.Lib.Json

/-! Edits of a JSON document at a path, and what an edit leaves alone. -/
namespace AiGateway.Lib
open List Option

/-- The members with this one set, in the order of the keys. -/
def insertMember (key : Bytes) (value : Json) : List (Bytes × Json) → List (Bytes × Json)
  | [] => [(key, value)]
  | (other, old) :: members =>
    if other = key then (key, value) :: members
    else if key < other then (key, value) :: (other, old) :: members
    else (other, old) :: insertMember key value members

def eraseMember (key : Bytes) (members : List (Bytes × Json)) : List (Bytes × Json) :=
  members.filter (fun member => member.1 != key)

/-- Adds the members of the second map to the first, over members with the same key. -/
def mergeMembers (members incoming : List (Bytes × Json)) : List (Bytes × Json) :=
  incoming.foldl (fun members member => insertMember member.1 member.2 members) members

@[simp] theorem lookup_insertMember_self (key : Bytes) (v : Json) (ms : List (Bytes × Json)) :
    (insertMember key v ms).lookup key = some v := by
  induction ms with
  | nil => simp [insertMember]
  | cons member ms ih =>
    unfold insertMember
    split_ifs with heq hlt
    · simp
    · simp
    · rw [lookup_cons, beq_false_of_ne (Ne.symm heq), ih]

variable {key o : Bytes}

theorem lookup_insertMember_of_ne (hne : o ≠ key) (v : Json)
    (ms : List (Bytes × Json)) :
    (insertMember key v ms).lookup o = ms.lookup o := by
  induction ms with
  | nil => simp [insertMember, hne]
  | cons member ms ih =>
    unfold insertMember
    split_ifs with heq hlt
    · rw [lookup_cons, lookup_cons, heq, beq_false_of_ne hne]
    · rw [lookup_cons, beq_false_of_ne hne]
    · rw [lookup_cons, lookup_cons, ih]

theorem lookup_eraseMember_of_ne (hne : o ≠ key) (ms : List (Bytes × Json)) :
    (eraseMember key ms).lookup o = ms.lookup o := by
  induction ms with
  | nil => rfl
  | cons member ms ih =>
    obtain ⟨first, old⟩ := member
    unfold eraseMember at ih ⊢
    rw [filter_cons]
    split_ifs with hk
    · rw [lookup_cons, lookup_cons, ih]
    · have hf : first = key := by simpa using hk
      rw [lookup_cons, hf, beq_false_of_ne hne, ih]

namespace Json

/-- Applies `f` to the value at the path, which must exist. -/
def update (f : Json → Option Json) : Json → List Bytes → Option Json
  | value, [] => f value
  | object members, token :: tokens => do
    let old ← members.lookup token
    let new ← update f old tokens
    return object (insertMember token new members)
  | array items, token :: tokens => do
    let index ← parseIndex token
    let old ← items[index]?
    let new ← update f old tokens
    return array (items.set index new)
  | _, _ :: _ => none

/-- The position a token names for an insertion: a dash is the end. -/
def insertionIndex (token : Bytes) (length : ℕ) : Option ℕ :=
  if token = [45] then some length
  else (parseIndex token).filter (fun index => decide (index ≤ length))

def addChild (token : Bytes) (value : Json) : Json → Option Json
  | object members => some (object (insertMember token value members))
  | array items =>
    (insertionIndex token items.length).map (fun index => array (items.insertIdx index value))
  | _ => none

def removeChild (token : Bytes) : Json → Option Json
  | object members => (members.lookup token).map (fun _ => object (eraseMember token members))
  | array items => do
    let index ← parseIndex token
    let _ ← items[index]?
    return array (items.eraseIdx index)
  | _ => none

/-- Adds at the path, over the whole document for the empty one. -/
def add (document : Json) (path : List Bytes) (value : Json) : Option Json :=
  match path.getLast? with
  | none => some value
  | some token => document.update (addChild token value) path.dropLast

def remove (document : Json) (path : List Bytes) : Option Json :=
  match path.getLast? with
  | none => none
  | some token => document.update (removeChild token) path.dropLast

def replace (document : Json) (path : List Bytes) (value : Json) : Option Json :=
  document.update (fun _ => some value) path

/-- The two documents differ only at this path: above it objects keep their other members and arrays
their length and other items, and the last token may add, remove or shift children. -/
inductive ChangedAt : List Bytes → Json → Json → Prop where
  | here (old new : Json) : ChangedAt [] old new
  | member {token : Bytes} {tokens : List Bytes} {members changed : List (Bytes × Json)}
      {old new : Json} (hothers : ∀ key, key ≠ token → changed.lookup key = members.lookup key)
      (hold : members.lookup token = some old) (hnew : changed.lookup token = some new)
      (hbelow : ChangedAt tokens old new) :
      ChangedAt (token :: tokens) (object members) (object changed)
  | item {token : Bytes} {tokens : List Bytes} {items : List Json} {index : ℕ} {old new : Json}
      (hindex : parseIndex token = some index) (hold : items[index]? = some old)
      (hbelow : ChangedAt tokens old new) :
      ChangedAt (token :: tokens) (array items) (array (items.set index new))
  | lastMember {token : Bytes} {members changed : List (Bytes × Json)}
      (hothers : ∀ key, key ≠ token → changed.lookup key = members.lookup key) :
      ChangedAt [token] (object members) (object changed)
  | lastItem {token : Bytes} (items changed : List Json) :
      ChangedAt [token] (array items) (array changed)

variable {doc res : Json} {path : List Bytes} {f : Json → Option Json} {tok : Bytes}
  {v old new : Json}

/-- An edit of the value at a path changes the document at the path. -/
theorem changedAt_update {tail : List Bytes}
    (hf : ∀ old new, f old = some new → ChangedAt tail old new)
    (h : doc.update f path = some res) : ChangedAt (path ++ tail) doc res := by
  induction path generalizing doc res with
  | nil =>
    exact hf _ _ h
  | cons tok toks ih =>
    cases doc with
    | object ms =>
      simp only [update, Option.bind_eq_bind, Option.bind_eq_some_iff, Option.pure_def,
        Option.some_inj] at h
      obtain ⟨old, hol, new, hn, rfl⟩ := h
      exact .member (fun key hne => lookup_insertMember_of_ne hne new ms) hol
        (lookup_insertMember_self tok new ms) (ih hn)
    | array items =>
      simp only [update, Option.bind_eq_bind, Option.bind_eq_some_iff, Option.pure_def,
        Option.some_inj] at h
      obtain ⟨i, hin, old, hol, new, hn, rfl⟩ := h
      exact .item hin hol (ih hn)
    | null | bool _ | number _ | string _ =>
      cases h

theorem changedAt_addChild
    (h : addChild tok v old = some new) : ChangedAt [tok] old new := by
  cases old with
  | object ms =>
    cases h
    exact .lastMember (fun key hne => lookup_insertMember_of_ne hne v ms)
  | array items =>
    obtain ⟨i, -, rfl⟩ := map_eq_some_iff.mp h
    exact .lastItem _ _
  | null | bool _ | number _ | string _ => cases h

theorem changedAt_removeChild
    (h : removeChild tok old = some new) : ChangedAt [tok] old new := by
  cases old with
  | object ms =>
    obtain ⟨-, -, rfl⟩ := map_eq_some_iff.mp h
    exact .lastMember (fun key hne => lookup_eraseMember_of_ne hne ms)
  | array items =>
    simp only [removeChild, Option.bind_eq_bind, Option.bind_eq_some_iff, Option.pure_def,
      Option.some_inj] at h
    obtain ⟨i, -, -, -, rfl⟩ := h
    exact .lastItem _ _
  | null | bool _ | number _ | string _ => cases h

theorem changedAt_add
    (h : doc.add path v = some res) : ChangedAt path doc res := by
  unfold add at h
  split at h
  · rename_i hp
    rw [List.getLast?_eq_none_iff.mp hp]
    exact .here _ _
  · rename_i tok hp
    rw [← dropLast_append_getLast? tok hp]
    exact changedAt_update (fun _ _ => changedAt_addChild) h

theorem changedAt_remove
    (h : doc.remove path = some res) : ChangedAt path doc res := by
  unfold remove at h
  split at h
  · cases h
  · rename_i tok hp
    rw [← dropLast_append_getLast? tok hp]
    exact changedAt_update (fun _ _ => changedAt_removeChild) h

theorem changedAt_of_update
    (h : doc.update f path = some res) : ChangedAt path doc res := by
  have hc := changedAt_update (fun old new _ => ChangedAt.here old new) h
  rwa [append_nil] at hc

namespace ChangedAt

variable {tok : Bytes} {toks : List Bytes} {old new : Json} {key : Bytes} {α : Type}

section
variable (h : ChangedAt (tok :: toks) old new)
include h

theorem get_of_ne (hne : key ≠ tok) :
    new.get key = old.get key := by
  cases h with
  | member hot _ _ _ => exact hot key hne
  | lastMember hot => exact hot key hne
  | item _ _ _ => rfl
  | lastItem _ _ => rfl

/-- The member on the path is changed below, or it is the last one. -/
theorem get_self (hm : toks ≠ []) :
    (old.get tok = none ∧ new.get tok = none) ∨
      ∃ below below', old.get tok = some below ∧ new.get tok = some below' ∧
        ChangedAt toks below below' := by
  cases h with
  | member _ hol hn hb => exact .inr ⟨_, _, hol, hn, hb⟩
  | lastMember _ => exact absurd rfl hm
  | item _ _ _ => exact .inl ⟨rfl, rfl⟩
  | lastItem _ _ => exact absurd rfl hm

theorem isObject_eq : new.isObject = old.isObject := by
  cases h <;> rfl

end

/-- What is read below a member stays, if the path ends below it and not at what is read. -/
theorem bind_get (view : Json → Option α) (h : ChangedAt (tok :: toks) old new)
    (hb : key = tok → toks ≠ [] ∧
      ∀ below below', ChangedAt toks below below' → view below' = view below) :
    (new.get key).bind view = (old.get key).bind view := by
  by_cases hk : key = tok
  · subst hk
    obtain ⟨hm, hv⟩ := hb rfl
    rcases h.get_self hm with ⟨hol, hn⟩ | ⟨below, below', hol, hn, hc⟩
    · rw [hol, hn]
    · rw [hol, hn, bind_some, bind_some, hv below below' hc]
  · rw [h.get_of_ne hk]

/-- What is read of every item of an array stays, if the path ends below one of them and not at what
is read. -/
theorem map_items (view : Json → α) (h : ChangedAt (tok :: toks) old new) (hm : toks ≠ [])
    (hv : ∀ below below', ChangedAt toks below below' → view below' = view below) :
    new.asArray.map (List.map view) = old.asArray.map (List.map view) := by
  cases h with
  | member _ _ _ _ => rfl
  | lastMember _ => exact absurd rfl hm
  | lastItem _ _ => exact absurd rfl hm
  | @item _ _ items i below below' _ hol hb =>
    have hit : (items.map view)[i]? = some (view below') := by
      rw [List.getElem?_map, hol, map_some, hv below below' hb]
    simp only [asArray, map_some, map_set]
    obtain ⟨hlt, hs⟩ := List.getElem?_eq_some_iff.mp hit
    rw [← hs, set_getElem_self]

end ChangedAt

end Json
end AiGateway.Lib
