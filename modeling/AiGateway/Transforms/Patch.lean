import AiGateway.Domain.Basic
import AiGateway.Lib.Checked
import AiGateway.Lib.JsonPatch

/-! JSON patch operations of transform plans and their application to a document. -/
namespace AiGateway.Transforms
open List Option

open Lib Lib.Stage Domain

inductive TransformApplyError where
  | protectedHeader
  | invalidJsonBody
  | invalidJsonPointer
  | patchFailed
  | serializationFailed
  | sseFrameTooLarge
  deriving DecidableEq

/-- The escapes of a reference token resolved, if every tilde is part of one. -/
def decodeToken : Bytes → Option Bytes
  | [] => some []
  | byte :: rest =>
    if byte = 126 then
      match rest with
      | [] => none
      | next :: rest =>
        if next = 48 then (decodeToken rest).map (126 :: ·)
        else if next = 49 then (decodeToken rest).map (47 :: ·)
        else none
    else (decodeToken rest).map (byte :: ·)

/-- The tokens of a well-formed pointer. -/
def decodePointer : Bytes → Option (List Bytes)
  | [] => some []
  | byte :: rest => if byte = 47 then (rest.splitOn 47).mapM decodeToken else none

structure JsonPointer where
  raw : Bytes
  tokens : List Bytes
  deriving DecidableEq

/-- A pointer whose tokens are those of its text. -/
def JsonPointer.WellFormed (pointer : JsonPointer) : Prop :=
  decodePointer pointer.raw = some pointer.tokens

def runtimePointer (pointer : JsonPointer) : Except TransformApplyError (List Bytes) :=
  orReject (decodePointer pointer.raw) .invalidJsonPointer

inductive JsonValueType where
  | object | array | string | number | boolean | null
  deriving DecidableEq

namespace JsonValueType

def matchesValue : JsonValueType → Json → Bool
  | object, .object _ => true
  | array, .array _ => true
  | string, .string _ => true
  | number, .number _ => true
  | boolean, .bool _ => true
  | null, .null => true
  | _, _ => false

end JsonValueType

/-- One condition over the value at the operation's own path. -/
inductive JsonCondition where
  | exists (expected : Bool)
  | type (expected : JsonValueType)
  | equals (expected : Json)

def JsonCondition.holds (current : Option Json) : JsonCondition → Bool
  | .exists expected => current.isSome == expected
  | .type expected => current.any expected.matchesValue
  | .equals expected => current.any (·.sameValue expected)

/-- Values refer to the value at the operation's own path and to nothing else. -/
inductive JsonValueExpression where
  | literal (value : Json)
  | current
  | template (text : Bytes)
  | array (items : List JsonValueExpression)
  | object (entries : List (Bytes × JsonValueExpression))

def containsText (pattern text : Bytes) : Bool := text.tails.any pattern.isPrefixOf

/-- Replaces the occurrences from left to right; `skip` bytes belong to the last one. -/
def replaceFrom (pattern replacement : Bytes) : ℕ → Bytes → Bytes
  | _, [] => []
  | skip + 1, _ :: rest => replaceFrom pattern replacement skip rest
  | 0, byte :: rest =>
    if pattern.isPrefixOf (byte :: rest) then
      replacement ++ replaceFrom pattern replacement (pattern.length - 1) rest
    else byte :: replaceFrom pattern replacement 0 rest

def valueMarker : Bytes := utf8 "\x7b\x7bvalue\x7d\x7d"

section Resolve

variable (codec : JsonCodec) (current : Option Json)

def renderTemplateValue : Json → Bytes
  | .string text => text
  | value => codec.serialize value

mutual

def JsonValueExpression.resolve : JsonValueExpression → Except TransformApplyError Json
  | .literal value => .ok value
  | .current =>
    match current with
    | none => .error .patchFailed
    | some value => .ok value
  | .template text =>
    if containsText valueMarker text then
      match current with
      | none => .error .patchFailed
      | some value =>
        .ok (.string (replaceFrom valueMarker (renderTemplateValue codec value) 0 text))
    else .ok (.string (replaceFrom valueMarker [] 0 text))
  | .array items => (resolveItems items).map .array
  | .object entries => (resolveEntries [] entries).map .object

def resolveItems : List JsonValueExpression → Except TransformApplyError (List Json)
  | [] => .ok []
  | item :: items => do
    let value ← item.resolve
    let values ← resolveItems items
    return value :: values

def resolveEntries (members : List (Bytes × Json)) :
    List (Bytes × JsonValueExpression) → Except TransformApplyError (List (Bytes × Json))
  | [] => .ok members
  | (key, entry) :: entries => do
    let value ← entry.resolve
    resolveEntries (insertMember key value members) entries

end

end Resolve

inductive AdvancedJsonOperation where
  | add (path : JsonPointer) (value : JsonValueExpression) (condition : Option JsonCondition)
  | replace (path : JsonPointer) (value : JsonValueExpression) (condition : Option JsonCondition)
  | remove (path : JsonPointer) (condition : Option JsonCondition)
  | arrayAppend (path : JsonPointer) (value : JsonValueExpression) (condition : Option JsonCondition)
  | arrayPrepend (path : JsonPointer) (value : JsonValueExpression) (condition : Option JsonCondition)
  | arrayInsert (path : JsonPointer) (index : ℕ) (value : JsonValueExpression)
      (condition : Option JsonCondition)
  | arrayRemove (path : JsonPointer) (index : ℕ) (condition : Option JsonCondition)
  | merge (path : JsonPointer) (value : JsonValueExpression) (condition : Option JsonCondition)

namespace AdvancedJsonOperation

def path : AdvancedJsonOperation → JsonPointer
  | add path _ _ | replace path _ _ | remove path _ | arrayAppend path _ _ | arrayPrepend path _ _
  | arrayInsert path _ _ _ | arrayRemove path _ _ | merge path _ _ => path

def condition : AdvancedJsonOperation → Option JsonCondition
  | add _ _ c | replace _ _ c | remove _ c | arrayAppend _ _ c | arrayPrepend _ _ c
  | arrayInsert _ _ _ c | arrayRemove _ _ c | merge _ _ c => c

def isArrayOperation : AdvancedJsonOperation → Bool
  | arrayAppend .. | arrayPrepend .. | arrayInsert .. | arrayRemove .. => true
  | _ => false

def isRemove : AdvancedJsonOperation → Bool
  | remove .. => true
  | _ => false

def canCreateTarget : AdvancedJsonOperation → Bool
  | add .. => true
  | _ => false

def requiresExistingTarget (operation : AdvancedJsonOperation) : Bool := !operation.canCreateTarget

end AdvancedJsonOperation

inductive JsonPatchOperation where
  | add (path : JsonPointer) (value : Json)
  | replace (path : JsonPointer) (value : Json)
  | remove (path : JsonPointer)
  | advanced (operation : AdvancedJsonOperation)

def operationPath : JsonPatchOperation → JsonPointer
  | .add path _ | .replace path _ | .remove path => path
  | .advanced operation => operation.path

def orPatchFailed (edited : Option Json) : Except TransformApplyError Json :=
  orReject edited .patchFailed

/-- Edits the array or the object at a pointer. -/
def updateTarget (document : Json) (pointer : JsonPointer) (f : Json → Option Json) : Option Json :=
  (pointerTokens pointer.raw).bind (document.update f)

def onArray (f : List Json → Option (List Json)) : Json → Option Json
  | .array items => (f items).map .array
  | _ => none

def onObject (f : List (Bytes × Json) → List (Bytes × Json)) : Json → Option Json
  | .object members => some (.object (f members))
  | _ => none

section Apply

variable (codec : JsonCodec)

/-- The edit of an advanced operation whose condition holds. -/
def applyAdvancedEdit (document : Json) (current : Option Json) :
    AdvancedJsonOperation → Except TransformApplyError Json
  | .add path value _ => do
    let value ← value.resolve codec current
    let tokens ← runtimePointer path
    orPatchFailed (document.add tokens value)
  | .replace path value _ => do
    let value ← value.resolve codec current
    let tokens ← runtimePointer path
    orPatchFailed (document.replace tokens value)
  | .remove path _ => do
    let tokens ← runtimePointer path
    orPatchFailed (document.remove tokens)
  | .arrayAppend path value _ => do
    let value ← value.resolve codec current
    orPatchFailed (updateTarget document path (onArray (fun items => some (items ++ [value]))))
  | .arrayPrepend path value _ => do
    let value ← value.resolve codec current
    orPatchFailed (updateTarget document path (onArray (fun items => some (value :: items))))
  | .arrayInsert path index value _ => do
    let value ← value.resolve codec current
    orPatchFailed (updateTarget document path (onArray (fun items =>
      if items.length < index then none else some (items.insertIdx index value))))
  | .arrayRemove path index _ =>
    orPatchFailed (updateTarget document path (onArray (fun items =>
      if items.length ≤ index then none else some (items.eraseIdx index))))
  | .merge path value _ => do
    let value ← value.resolve codec current
    match value with
    | .object incoming =>
      orPatchFailed (updateTarget document path (onObject (mergeMembers · incoming)))
    | _ => .error .patchFailed

def applyAdvancedPatch (document : Json) (operation : AdvancedJsonOperation) :
    Except TransformApplyError Json :=
  let current := document.pointer operation.path.raw
  if operation.condition.any (fun condition => !condition.holds current) then .ok document
  else applyAdvancedEdit codec document current operation

def applyJsonPatchOperation (document : Json) :
    JsonPatchOperation → Except TransformApplyError Json
  | .add path value => do
    let tokens ← runtimePointer path
    orPatchFailed (document.add tokens value)
  | .replace path value => do
    let tokens ← runtimePointer path
    orPatchFailed (document.replace tokens value)
  | .remove path => do
    let tokens ← runtimePointer path
    orPatchFailed (document.remove tokens)
  | .advanced operation => applyAdvancedPatch codec document operation

/-- A plan applies its operations in order, and all of them or none. -/
abbrev JsonPatchPlan := List JsonPatchOperation

def applyJsonPatchValue : Json → JsonPatchPlan → Except TransformApplyError Json
  | document, [] => .ok document
  | document, operation :: operations => do
    let document ← applyJsonPatchOperation codec document operation
    applyJsonPatchValue document operations

/-- An empty plan keeps the bytes as they are. -/
def applyJsonPatchPlan (body : Bytes) (plan : JsonPatchPlan) : Except TransformApplyError Bytes :=
  if plan.isEmpty then .ok body
  else
    match codec.parse body with
    | none => .error .invalidJsonBody
    | some document => (applyJsonPatchValue codec document plan).map codec.serialize

end Apply

theorem replacePair_cons_of_ne {first second replacement byte : UInt8} (h : byte ≠ first)
    (rest : Bytes) : replacePair first second replacement (byte :: rest) =
      byte :: replacePair first second replacement rest := by
  cases rest with
  | nil => simp [replacePair]
  | cons next rest => rw [replacePair, if_neg (fun hp => h hp.1)]

/-- Where every tilde is part of an escape, replacing the escapes one kind after the other resolves
each of them once. -/
theorem unescapeToken_of_decodeToken {tok dec : Bytes} (h : decodeToken tok = some dec) :
    unescapeToken tok = dec := by
  fun_induction decodeToken tok generalizing dec with
  | case1 =>
    cases h
    rfl
  | case2 => cases h
  | case3 rest ih =>
    obtain ⟨tail, ht, rfl⟩ := map_eq_some_iff.mp h
    rw [← ih ht]
    have hs : replacePair 126 49 47 (126 :: 48 :: rest) =
        126 :: 48 :: replacePair 126 49 47 rest := by
      rw [replacePair, if_neg (by decide), replacePair_cons_of_ne (by decide)]
    simp only [unescapeToken]
    rw [hs, replacePair, if_pos ⟨rfl, rfl⟩]
  | case4 rest _ ih =>
    obtain ⟨tail, ht, rfl⟩ := map_eq_some_iff.mp h
    rw [← ih ht]
    simp only [unescapeToken]
    rw [replacePair, if_pos ⟨rfl, rfl⟩, replacePair_cons_of_ne (by decide)]
  | case5 => cases h
  | case6 byte rest hb ih =>
    obtain ⟨tail, ht, rfl⟩ := map_eq_some_iff.mp h
    rw [← ih ht]
    simp only [unescapeToken]
    rw [replacePair_cons_of_ne hb, replacePair_cons_of_ne hb]

variable {toks : List Bytes} {pointer : JsonPointer}

theorem map_unescapeToken_of_mapM {dec : List Bytes}
    (h : toks.mapM decodeToken = some dec) : toks.map unescapeToken = dec := by
  induction toks generalizing dec with
  | nil =>
    cases h
    rfl
  | cons tok toks ih =>
    simp only [mapM_cons, Option.bind_eq_bind, Option.bind_eq_some_iff, Option.pure_def,
      Option.some_inj] at h
    obtain ⟨first, hf, rest, hr, rfl⟩ := h
    rw [map_cons, ih hr, unescapeToken_of_decodeToken hf]

/-- The two readings of a well-formed pointer agree. -/
theorem pointerTokens_of_decodePointer {raw : Bytes}
    (h : decodePointer raw = some toks) : pointerTokens raw = some toks := by
  cases raw with
  | nil => exact h
  | cons byte rest =>
    rw [decodePointer] at h
    rw [pointerTokens]
    split_ifs at h ⊢
    exact congrArg some (map_unescapeToken_of_mapM h)

theorem tokens_of_runtimePointer
    (hp : pointer.WellFormed) (h : runtimePointer pointer = .ok toks) :
    pointer.tokens = toks :=
  some_inj.mp (hp.symm.trans (orReject_eq_ok.mp h))

theorem orPatchFailed_eq_ok {edited : Option Json} {doc : Json}
    (h : orPatchFailed edited = .ok doc) : edited = some doc :=
  orReject_eq_ok.mp h

section Changes

variable {codec : JsonCodec} {doc res : Json}

open Json (ChangedAt)

theorem changedAt_updateTarget (hp : pointer.WellFormed)
    {f : Json → Option Json} (h : orPatchFailed (updateTarget doc pointer f) = .ok res) :
    ChangedAt pointer.tokens doc res := by
  have hu := orPatchFailed_eq_ok h
  rw [updateTarget, pointerTokens_of_decodePointer hp, bind_some] at hu
  exact Json.changedAt_of_update hu

/-- An advanced edit changes the document at its own path only. -/
theorem changedAt_applyAdvancedEdit {current : Option Json} {op : AdvancedJsonOperation}
    (hp : op.path.WellFormed)
    (h : applyAdvancedEdit codec doc current op = .ok res) :
    ChangedAt op.path.tokens doc res := by
  cases op with
  | add path v _ =>
    simp only [applyAdvancedEdit, bind_eq_ok] at h
    obtain ⟨v, -, toks, ht, he⟩ := h
    rw [tokens_of_runtimePointer hp ht]
    exact Json.changedAt_add (orPatchFailed_eq_ok he)
  | replace path v _ =>
    simp only [applyAdvancedEdit, bind_eq_ok] at h
    obtain ⟨v, -, toks, ht, he⟩ := h
    rw [tokens_of_runtimePointer hp ht]
    exact Json.changedAt_of_update (orPatchFailed_eq_ok he)
  | remove path _ =>
    simp only [applyAdvancedEdit, bind_eq_ok] at h
    obtain ⟨toks, ht, he⟩ := h
    rw [tokens_of_runtimePointer hp ht]
    exact Json.changedAt_remove (orPatchFailed_eq_ok he)
  | arrayAppend path v _ | arrayPrepend path v _ | arrayInsert path i v _ =>
    simp only [applyAdvancedEdit, bind_eq_ok] at h
    obtain ⟨v, -, he⟩ := h
    exact changedAt_updateTarget hp he
  | arrayRemove path i _ => exact changedAt_updateTarget hp h
  | merge path v _ =>
    simp only [applyAdvancedEdit, bind_eq_ok] at h
    obtain ⟨v, -, he⟩ := h
    cases v with
    | object incoming => exact changedAt_updateTarget hp he
    | null | bool _ | number _ | string _ | array _ => cases he

/-- An operation leaves the document as it is or changes it at its own path only. -/
theorem applyJsonPatchOperation_changes {op : JsonPatchOperation}
    (hp : (operationPath op).WellFormed)
    (h : applyJsonPatchOperation codec doc op = .ok res) :
    res = doc ∨ ChangedAt (operationPath op).tokens doc res := by
  cases op with
  | add path v =>
    simp only [applyJsonPatchOperation, bind_eq_ok] at h
    obtain ⟨toks, ht, he⟩ := h
    rw [tokens_of_runtimePointer hp ht]
    exact .inr (Json.changedAt_add (orPatchFailed_eq_ok he))
  | replace path v =>
    simp only [applyJsonPatchOperation, bind_eq_ok] at h
    obtain ⟨toks, ht, he⟩ := h
    rw [tokens_of_runtimePointer hp ht]
    exact .inr (Json.changedAt_of_update (orPatchFailed_eq_ok he))
  | remove path =>
    simp only [applyJsonPatchOperation, bind_eq_ok] at h
    obtain ⟨toks, ht, he⟩ := h
    rw [tokens_of_runtimePointer hp ht]
    exact .inr (Json.changedAt_remove (orPatchFailed_eq_ok he))
  | advanced op =>
    simp only [applyJsonPatchOperation, applyAdvancedPatch] at h
    split_ifs at h
    · cases h
      exact .inl rfl
    · exact .inr (changedAt_applyAdvancedEdit hp h)

/-- A property of the document that no change at an allowed path touches survives a whole plan. -/
theorem applyJsonPatchValue_preserves {α : Type} (view : Json → α) (allowed : List Bytes → Prop)
    (hv : ∀ path old new, allowed path → ChangedAt path old new → view new = view old)
    {plan : JsonPatchPlan} (hp : ∀ op ∈ plan, (operationPath op).WellFormed ∧
      allowed (operationPath op).tokens)
    (h : applyJsonPatchValue codec doc plan = .ok res) : view res = view doc := by
  induction plan generalizing doc with
  | nil =>
    cases h
    rfl
  | cons op plan ih =>
    rw [applyJsonPatchValue, bind_eq_ok] at h
    obtain ⟨next, hn, hr⟩ := h
    obtain ⟨hpa, ha⟩ := hp op mem_cons_self
    rw [ih (fun o hm => hp o (mem_cons_of_mem _ hm)) hr]
    rcases applyJsonPatchOperation_changes hpa hn with rfl | hc
    · rfl
    · exact hv _ _ _ ha hc

theorem applyJsonPatchValue_append (doc : Json) (first second : JsonPatchPlan) :
    applyJsonPatchValue codec doc (first ++ second) =
      (applyJsonPatchValue codec doc first).bind (applyJsonPatchValue codec · second) := by
  induction first generalizing doc with
  | nil => rfl
  | cons op first ih =>
    rw [cons_append, applyJsonPatchValue, applyJsonPatchValue]
    cases applyJsonPatchOperation codec doc op with
    | error err => rfl
    | ok next => exact ih next

end Changes

end AiGateway.Transforms
