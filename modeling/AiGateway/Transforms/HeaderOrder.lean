import AiGateway.Lib.Footprint
import AiGateway.Transforms.Plan

/-! No header name occurs twice in an accepted header plan, so that its operations commute. -/
namespace AiGateway.Transforms
open List

open Lib Lib.Stage Domain

namespace HeaderMap

variable (hdrs : HeaderMap) (name : HeaderName)

theorem getAll_remove : (hdrs.remove name).getAll = Function.update hdrs.getAll name [] := by
  funext k
  by_cases hk : k = name
  · subst hk
    simp [getAll, remove, filter_filter]
  · rw [Function.update_of_ne hk, getAll_remove_of_ne _ hk]

theorem getAll_foldl_append (vs : List HeaderValue) :
    (vs.foldl (fun hdrs v => hdrs.append name v) hdrs).getAll =
      Function.update hdrs.getAll name (hdrs.getAll name ++ vs) := by
  funext k
  by_cases hk : k = name
  · subst hk
    rw [Function.update_self]
    induction vs generalizing hdrs with
    | nil => exact (append_nil _).symm
    | cons v vs ih =>
      rw [foldl_cons, ih]
      simp [getAll, append]
  · rw [Function.update_of_ne hk, getAll_foldl_append_of_ne _ hk]

theorem getAll_insert (v : HeaderValue) :
    (hdrs.insert name v).getAll = Function.update hdrs.getAll name [v] := by
  change ([v].foldl (fun hdrs v => hdrs.append name v) (hdrs.remove name)).getAll = _
  rw [getAll_foldl_append, getAll_remove, Function.update_self, Function.update_idem, nil_append]

end HeaderMap

namespace HeaderOperation

def names : HeaderOperation → List HeaderName
  | .set name _ => [name]
  | .remove name => [name]
  | .rename source target => [source, target]

/-- What the operation does to the values under each name. -/
def effect (values : HeaderName → List HeaderValue) :
    HeaderOperation → HeaderName → List HeaderValue
  | .set name value => Function.update values name [value]
  | .remove name => Function.update values name []
  | .rename source target =>
    Function.update (Function.update values target (values target ++ values source)) source []

def allowed (connectionNames : List HeaderName) (scope : HeaderScope) (operation : HeaderOperation) :
    Bool :=
  operation.names.all
    (fun name => !(isProtectedHeader name scope || connectionNames.contains name))

variable {connectionNames : List HeaderName} {scope : HeaderScope} {hdrs : HeaderMap}

theorem localTo_effect (op : HeaderOperation) : LocalTo op.names (effect · op) := by
  cases op with
  | set name v =>
    refine ⟨fun vs k hk => ?_, fun _ k hk => ?_⟩
    · exact Function.update_of_ne (mem_singleton.not.mp hk) _ _
    · simp [effect, mem_singleton.mp hk]
  | remove name =>
    refine ⟨fun vs k hk => ?_, fun _ k hk => ?_⟩
    · exact Function.update_of_ne (mem_singleton.not.mp hk) _ _
    · simp [effect, mem_singleton.mp hk]
  | rename src target =>
    refine ⟨fun vs k hk => ?_, fun {v w} h k hk => ?_⟩
    · obtain ⟨hs, ht⟩ : k ≠ src ∧ k ≠ target := by simpa [names] using hk
      simp [effect, hs, ht]
    · have hs : v src = w src := h src (by simp [names])
      have ht : v target = w target := h target (by simp [names])
      obtain rfl | rfl : k = src ∨ k = target := by simpa [names] using hk
      · simp [effect]
      · simp [effect, Function.update_apply, hs, ht]

theorem map_getAll_applyHeaderOperation (op : HeaderOperation) (hnd : op.names.Nodup) :
    (applyHeaderOperation connectionNames scope hdrs op).map HeaderMap.getAll =
      if op.allowed connectionNames scope then .ok (op.effect hdrs.getAll)
      else .error .protectedHeader := by
  cases op with
  | set name v =>
    rw [effect, ← HeaderMap.getAll_insert]
    simp only [applyHeaderOperation, ensureRuntimeHeaderAllowed, allowed, names, all_cons, all_nil,
      Bool.and_true]
    generalize (!(isProtectedHeader name scope || connectionNames.contains name)) = free
    cases free <;> rfl
  | remove name =>
    rw [effect, ← HeaderMap.getAll_remove]
    simp only [applyHeaderOperation, ensureRuntimeHeaderAllowed, allowed, names, all_cons, all_nil,
      Bool.and_true]
    generalize (!(isProtectedHeader name scope || connectionNames.contains name)) = free
    cases free <;> rfl
  | rename src target =>
    have hne : target ≠ src := by simpa [names, eq_comm] using hnd
    have hmoved : ((hdrs.getAll src).foldl (fun hdrs v => hdrs.append target v)
        (hdrs.remove src)).getAll = effect hdrs.getAll (.rename src target) := by
      rw [HeaderMap.getAll_foldl_append, HeaderMap.getAll_remove, Function.update_of_ne hne,
        Function.update_comm hne.symm]
      rfl
    have hstays (he : (hdrs.getAll src).isEmpty = true) :
        hdrs.getAll = effect hdrs.getAll (.rename src target) := by
      have hnil := isEmpty_iff.mp he
      rw [effect, hnil, append_nil, Function.update_eq_self, ← hnil, Function.update_eq_self]
    simp only [applyHeaderOperation, ensureRuntimeHeaderAllowed, allowed, names, all_cons, all_nil,
      Bool.and_true]
    generalize (!(isProtectedHeader src scope || connectionNames.contains src)) = free
    generalize (!(isProtectedHeader target scope || connectionNames.contains target)) = free'
    cases free with
    | false => rfl
    | true =>
      cases free' with
      | false => rfl
      | true =>
        by_cases he : (hdrs.getAll src).isEmpty = true
        · rw [if_pos he, ← hstays he]
          rfl
        · rw [if_neg he, ← hmoved]
          rfl

/-- A plan is refused because of a name in it; one that runs has the effects of its operations. -/
theorem map_getAll_foldlM {plan : HeaderPlan} (hnd : ∀ op ∈ plan, op.names.Nodup) :
    (plan.foldlM (applyHeaderOperation connectionNames scope) hdrs).map HeaderMap.getAll =
      if plan.all (allowed connectionNames scope) then .ok (plan.foldl effect hdrs.getAll)
      else .error .protectedHeader := by
  induction plan generalizing hdrs with
  | nil => rfl
  | cons op plan ih =>
    obtain ⟨ho, hpl⟩ := forall_mem_cons.mp hnd
    have hop : (applyHeaderOperation connectionNames scope hdrs op).map HeaderMap.getAll = _ :=
      map_getAll_applyHeaderOperation op ho
    rw [foldlM_cons, all_cons, foldl_cons]
    cases hallowed : op.allowed connectionNames scope with
    | false =>
      rw [hallowed] at hop
      cases ha : applyHeaderOperation connectionNames scope hdrs op with
      | error err =>
        rw [ha] at hop
        exact hop
      | ok res =>
        rw [ha] at hop
        cases hop
    | true =>
      rw [hallowed] at hop
      cases ha : applyHeaderOperation connectionNames scope hdrs op with
      | error err =>
        rw [ha] at hop
        cases hop
      | ok res =>
        rw [ha] at hop
        rw [← Except.ok.inj hop]
        exact ih hpl

end HeaderOperation

section Compiled
open HeaderOperation

/-- The names seen are those of the operations, and none was seen twice. -/
def Claimed (progress : HeaderProgress) : Prop :=
  progress.1 = (progress.2.flatMap (·.names)).reverse ∧ progress.1.Nodup

variable {scope : HeaderScope} {p q : HeaderProgress}

theorem claimName_eq_ok {seen seen' : List HeaderName} {name : HeaderName} :
    claimName seen name = .ok seen' ↔ name ∉ seen ∧ name :: seen = seen' := by
  unfold claimName
  rw [bind_eq_ok]
  simp [ensure_eq_ok, pure, Except.pure]

theorem Claimed.compileHeaderSet (h : Claimed p) {e : Bytes × Json}
    (hs : compileHeaderSet scope p e = .ok q) : Claimed q := by
  simp only [Transforms.compileHeaderSet, bind_eq_ok] at hs
  obtain ⟨name, _, seen, hc, _, _, _, _, ⟨⟩⟩ := hs
  obtain ⟨hn, rfl⟩ := claimName_eq_ok.mp hc
  refine ⟨?_, nodup_cons.mpr ⟨hn, h.2⟩⟩
  simp [h.1, HeaderOperation.names]

theorem Claimed.compileHeaderRemove (h : Claimed p) {e : Json}
    (hs : compileHeaderRemove scope p e = .ok q) : Claimed q := by
  simp only [Transforms.compileHeaderRemove, bind_eq_ok] at hs
  obtain ⟨_, _, name, _, seen, hc, ⟨⟩⟩ := hs
  obtain ⟨hn, rfl⟩ := claimName_eq_ok.mp hc
  refine ⟨?_, nodup_cons.mpr ⟨hn, h.2⟩⟩
  simp [h.1, HeaderOperation.names]

theorem Claimed.compileHeaderRename (h : Claimed p) {e : Bytes × Json}
    (hs : compileHeaderRename scope p e = .ok q) : Claimed q := by
  simp only [Transforms.compileHeaderRename, bind_eq_ok] at hs
  obtain ⟨src, _, _, _, target, _, seen, hc, seen', hc', ⟨⟩⟩ := hs
  obtain ⟨hn, rfl⟩ := claimName_eq_ok.mp hc
  obtain ⟨hn', rfl⟩ := claimName_eq_ok.mp hc'
  refine ⟨?_, nodup_cons.mpr ⟨hn', nodup_cons.mpr ⟨hn, h.2⟩⟩⟩
  simp [h.1, HeaderOperation.names]

theorem Claimed.compileField {α : Type} {field : Option Json} {entries : Json → Option (List α)}
    {err : TransformCompileError} {stage : HeaderProgress → α → Compiled HeaderProgress}
    (hst : ∀ {p q}, Claimed p → ∀ {e}, stage p e = .ok q → Claimed q) (h : Claimed p)
    (hc : compileField field entries err stage p = .ok q) : Claimed q := by
  cases field with
  | none =>
    cases hc
    exact h
  | some v =>
    obtain ⟨es, -, hf⟩ := bind_eq_ok.mp hc
    exact foldlM_invariant (fun _ => Claimed) h (fun _ _ _ _ _ hp => hst hp) hf

theorem nodup_of_compileHeaders {v : Option Json} {plan : HeaderPlan}
    (h : compileHeaders v scope = .ok plan) : (plan.flatMap (·.names)).Nodup := by
  unfold compileHeaders at h
  cases v with
  | none =>
    cases h
    exact nodup_nil
  | some v =>
    simp only [bind_eq_ok] at h
    obtain ⟨object, -, _, -, p, hs, q, hr, r, hn, ⟨⟩⟩ := h
    have hp : Claimed p := Claimed.compileField Claimed.compileHeaderSet ⟨rfl, nodup_nil⟩ hs
    have hq : Claimed q := hp.compileField Claimed.compileHeaderRemove hr
    have hc : Claimed r := hq.compileField Claimed.compileHeaderRename hn
    exact nodup_reverse.mp (hc.1 ▸ hc.2)

theorem map_getAll_of_perm {plan order : HeaderPlan} (hnd : (plan.flatMap (·.names)).Nodup)
    (hp : order ~ plan) (hdrs : HeaderMap) :
    (applyHeaderPlanInScope hdrs order scope).map HeaderMap.getAll =
      (applyHeaderPlanInScope hdrs plan scope).map HeaderMap.getAll := by
  have hops : ∀ op ∈ plan, op.names.Nodup := (nodup_flatMap.mp hnd).1
  unfold applyHeaderPlanInScope
  rw [map_getAll_foldlM (fun op ho => hops op (hp.subset ho)), map_getAll_foldlM hops,
    LocalTo.foldl_perm hp.symm hnd (fun op _ => localTo_effect op), hp.all_eq]

end Compiled

/-- The operations of an accepted document can be applied in any order: the message is refused
in all of them or in none, and the values under every name are the same. -/
theorem header_order_irrelevant {document : Json} {expectedFormat : ApiFormat}
    {plan : TransformPlan} (h : compileDocument document expectedFormat = .ok plan)
    (headers : HeaderMap) :
    (∀ order, order ~ plan.requestHeaders → (applyHeaderPlan headers order).map HeaderMap.getAll =
        (applyHeaderPlan headers plan.requestHeaders).map HeaderMap.getAll) ∧
    ∀ order, order ~ plan.responseHeaders →
      (applyResponseHeaderPlan headers order).map HeaderMap.getAll =
        (applyResponseHeaderPlan headers plan.responseHeaders).map HeaderMap.getAll := by
  simp only [compileDocument, bind_eq_ok] at h
  obtain ⟨object, -, h⟩ := h
  split_ifs at h
  · cases h
    refine ⟨fun order ho => ?_, fun order ho => ?_⟩
    · rw [ho.eq_nil]
      rfl
    · rw [ho.eq_nil]
      rfl
  · simp only [bind_eq_ok] at h
    obtain ⟨_, -, _, -, _, -, _, -, req, hreq, resp, hresp, _, -, _, -, ⟨⟩⟩ := h
    exact ⟨fun order ho => map_getAll_of_perm (nodup_of_compileHeaders hreq) ho headers,
      fun order ho => map_getAll_of_perm (nodup_of_compileHeaders hresp) ho headers⟩

/-- The plan of a document with an operation of each kind, and the plan with renaming first. -/
theorem header_order_irrelevant_reversed :
    let document := Json.object [(utf8 "version", .number (.int 1)),
      (utf8 "api_format", .string (utf8 "open_ai_responses")),
      (utf8 "request_headers", .object [(utf8 "set", .object [(utf8 "X-Tag", .string (utf8 "a"))]),
        (utf8 "remove", .array [.string (utf8 "x-trace")]),
        (utf8 "rename", .object [(utf8 "x-old", .string (utf8 "x-new"))])])]
    let order : HeaderPlan := [.rename (utf8 "x-old") (utf8 "x-new"), .remove (utf8 "x-trace"),
      .set (utf8 "x-tag") (utf8 "a")]
    let plan : TransformPlan := ⟨.openAiResponses, order.reverse, [], [], .empty _⟩
    let headers : HeaderMap := [(utf8 "x-old", utf8 "1"), (utf8 "x-new", utf8 "2")]
    compileDocument document .openAiResponses = .ok plan ∧
      (applyHeaderPlan headers order).map HeaderMap.getAll =
        (applyHeaderPlan headers plan.requestHeaders).map HeaderMap.getAll := by
  intro document order plan headers
  have hc : compileDocument document .openAiResponses = .ok plan := rfl
  exact ⟨hc, (header_order_irrelevant hc headers).1 order (reverse_perm order).symm⟩

end AiGateway.Transforms
