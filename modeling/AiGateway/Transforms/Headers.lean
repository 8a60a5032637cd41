import AiGateway.Transforms.Patch

/-! Header plans. Headers that are protected, or that the message itself declares hop-by-hop, are
refused when a plan runs. -/
namespace AiGateway.Transforms
open List

open Lib Lib.Stage

/-- A name in lower case. -/
abbrev HeaderName := Bytes

abbrev HeaderValue := Bytes

/-- The values of each name in the order they were added. -/
abbrev HeaderMap := List (HeaderName × HeaderValue)

namespace HeaderMap

def getAll (headers : HeaderMap) (name : HeaderName) : List HeaderValue :=
  (headers.filter (fun entry => entry.1 == name)).map (·.2)

def remove (headers : HeaderMap) (name : HeaderName) : HeaderMap :=
  headers.filter (fun entry => entry.1 != name)

def append (headers : HeaderMap) (name : HeaderName) (value : HeaderValue) : HeaderMap :=
  headers ++ [(name, value)]

def insert (headers : HeaderMap) (name : HeaderName) (value : HeaderValue) : HeaderMap :=
  (headers.remove name).append name value

variable {name o : HeaderName} (hdrs : HeaderMap) (hne : o ≠ name)
include hdrs hne

theorem getAll_remove_of_ne :
    (hdrs.remove name).getAll o = hdrs.getAll o := by
  unfold getAll remove
  rw [filter_filter]
  congr 1
  apply filter_congr
  intro e _
  by_cases hot : e.1 = o
  · simp [hot, hne]
  · simp [hot]

theorem getAll_append_of_ne (v : HeaderValue) : (hdrs.append name v).getAll o = hdrs.getAll o := by
  simp [getAll, append, hne.symm]

theorem getAll_insert_of_ne (v : HeaderValue) : (hdrs.insert name v).getAll o = hdrs.getAll o := by
  rw [insert, getAll_append_of_ne _ hne, getAll_remove_of_ne _ hne]

end HeaderMap

inductive HeaderScope where
  | request | response
  deriving DecidableEq

def headerIsHopByHop (name : HeaderName) : Bool :=
  [utf8 "connection", utf8 "keep-alive", utf8 "proxy-authenticate", utf8 "proxy-authorization",
    utf8 "proxy-connection", utf8 "te", utf8 "trailer", utf8 "transfer-encoding",
    utf8 "upgrade"].contains name

def requestHeaderIsProtected (name : HeaderName) : Bool :=
  headerIsHopByHop name || [utf8 "host", utf8 "content-length", utf8 "content-encoding",
    utf8 "authorization", utf8 "cookie", utf8 "accept-encoding"].contains name

def isProtectedHeader (name : HeaderName) (scope : HeaderScope) : Bool := headerIsHopByHop name ||
    match scope with
    | .request => requestHeaderIsProtected name
    | .response => [utf8 "content-length", utf8 "content-type", utf8 "set-cookie",
        utf8 "content-encoding"].contains name

/-- The characters of a token of HTTP. -/
def isTokenByte (byte : UInt8) : Bool :=
  isDigit byte || (65 ≤ byte && byte ≤ 90) || (97 ≤ byte && byte ≤ 122) ||
    [33, 35, 36, 37, 38, 39, 42, 43, 45, 46, 94, 95, 96, 124, 126].contains byte

def lowercase (byte : UInt8) : UInt8 := if 65 ≤ byte ∧ byte ≤ 90 then byte + 32 else byte

def headerNameFromBytes (raw : Bytes) : Option HeaderName :=
  if raw ≠ [] ∧ raw.length < 2 ^ 16 ∧ raw.all isTokenByte then some (raw.map lowercase) else none

/-- Visible ASCII, blanks and tabs. -/
def headerValueFromStr (text : Bytes) : Option HeaderValue :=
  if text.all (fun byte => (32 ≤ byte && byte < 127) || byte == 9) then some text else none

def isAsciiWhitespace (byte : UInt8) : Bool := [9, 10, 12, 13, 32].contains byte

/-- A slice of blanks only is returned as it is. -/
def trimAsciiBytes (bytes : Bytes) : Bytes :=
  if bytes.all isAsciiWhitespace then bytes
  else ((bytes.dropWhile isAsciiWhitespace).reverse.dropWhile isAsciiWhitespace).reverse

def parseConnectionHeaderNames (value : HeaderValue) : List HeaderName :=
  (value.splitOn 44).filterMap (fun name => headerNameFromBytes (trimAsciiBytes name))

def connectionHeaderNames (headers : HeaderMap) : List HeaderName :=
  (headers.getAll (utf8 "connection")).flatMap parseConnectionHeaderNames

inductive HeaderOperation where
  | set (name : HeaderName) (value : HeaderValue)
  | remove (name : HeaderName)
  | rename (source target : HeaderName)
  deriving DecidableEq

abbrev HeaderPlan := List HeaderOperation

def ensureRuntimeHeaderAllowed (connectionNames : List HeaderName) (scope : HeaderScope)
    (name : HeaderName) : Except TransformApplyError Unit :=
  ensure (!(isProtectedHeader name scope || connectionNames.contains name)) .protectedHeader

def applyHeaderOperation (connectionNames : List HeaderName) (scope : HeaderScope)
    (headers : HeaderMap) : HeaderOperation → Except TransformApplyError HeaderMap
  | .set name value => do
    ensureRuntimeHeaderAllowed connectionNames scope name
    return headers.insert name value
  | .remove name => do
    ensureRuntimeHeaderAllowed connectionNames scope name
    return headers.remove name
  | .rename source target => do
    ensureRuntimeHeaderAllowed connectionNames scope source
    ensureRuntimeHeaderAllowed connectionNames scope target
    let values := headers.getAll source
    if values.isEmpty then return headers
    return values.foldl (fun headers value => headers.append target value) (headers.remove source)

/-- The names the message declares are read once, before the first operation. -/
def applyHeaderPlanInScope (headers : HeaderMap) (plan : HeaderPlan) (scope : HeaderScope) :
    Except TransformApplyError HeaderMap :=
  plan.foldlM (applyHeaderOperation (connectionHeaderNames headers) scope) headers

def applyHeaderPlan (headers : HeaderMap) (plan : HeaderPlan) : Except TransformApplyError HeaderMap :=
  applyHeaderPlanInScope headers plan .request

def applyResponseHeaderPlan (headers : HeaderMap) (plan : HeaderPlan) :
    Except TransformApplyError HeaderMap :=
  applyHeaderPlanInScope headers plan .response

variable {connectionNames : List HeaderName} {scope : HeaderScope} {name o : HeaderName}
  {hdrs res : HeaderMap}

theorem ne_of_ensureRuntimeHeaderAllowed {u : Unit} (h : ensureRuntimeHeaderAllowed connectionNames scope name = .ok u) :
    utf8 "connection" ≠ name := by
  rintro rfl
  rw [ensureRuntimeHeaderAllowed, ensure_eq_ok] at h
  cases scope <;> simp [isProtectedHeader, headerIsHopByHop] at h

theorem getAll_foldl_append_of_ne (hdrs : HeaderMap) (hne : o ≠ name)
    (vs : List HeaderValue) :
    (vs.foldl (fun hdrs v => hdrs.append name v) hdrs).getAll o = hdrs.getAll o := by
  induction vs generalizing hdrs with
  | nil => rfl
  | cons v vs ih =>
    rw [foldl_cons, ih, HeaderMap.getAll_append_of_ne _ hne]

/-- No operation touches the header that declares hop-by-hop names. -/
theorem connectionHeaderNames_of_applyHeaderOperation {op : HeaderOperation}
    (h : applyHeaderOperation connectionNames scope hdrs op = .ok res) :
    connectionHeaderNames res = connectionHeaderNames hdrs := by
  have hg : res.getAll (utf8 "connection") = hdrs.getAll (utf8 "connection") := by
    cases op with
    | set name v =>
      simp only [applyHeaderOperation, bind_eq_ok] at h
      obtain ⟨_, ha, ⟨⟩⟩ := h
      exact HeaderMap.getAll_insert_of_ne _ (ne_of_ensureRuntimeHeaderAllowed ha) _
    | remove name =>
      simp only [applyHeaderOperation, bind_eq_ok] at h
      obtain ⟨_, ha, ⟨⟩⟩ := h
      exact HeaderMap.getAll_remove_of_ne _ (ne_of_ensureRuntimeHeaderAllowed ha)
    | rename src target =>
      simp only [applyHeaderOperation, bind_eq_ok] at h
      obtain ⟨_, hs, _, ht, h⟩ := h
      split_ifs at h
      · cases h
        rfl
      · cases h
        rw [getAll_foldl_append_of_ne _ (ne_of_ensureRuntimeHeaderAllowed ht),
          HeaderMap.getAll_remove_of_ne _ (ne_of_ensureRuntimeHeaderAllowed hs)]
  unfold connectionHeaderNames
  rw [hg]

theorem connectionHeaderNames_of_foldlM {plan : HeaderPlan}
    (h : plan.foldlM (applyHeaderOperation connectionNames scope) hdrs = .ok res) :
    connectionHeaderNames res = connectionHeaderNames hdrs :=
  foldlM_invariant (fun _ cur => connectionHeaderNames cur = connectionHeaderNames hdrs)
    rfl (fun _ _ _ _ _ hin hs =>
      (connectionHeaderNames_of_applyHeaderOperation hs).trans hin) h

/-- Two plans in a row are one plan: the second reads the same declared names. -/
theorem applyHeaderPlanInScope_append (hdrs : HeaderMap) (first second : HeaderPlan)
    (scope : HeaderScope) :
    applyHeaderPlanInScope hdrs (first ++ second) scope =
      (applyHeaderPlanInScope hdrs first scope).bind
        (applyHeaderPlanInScope · second scope) := by
  unfold applyHeaderPlanInScope
  rw [foldlM_append]
  cases hf : first.foldlM (applyHeaderOperation (connectionHeaderNames hdrs) scope) hdrs with
  | error err => rfl
  | ok res =>
    change _ = second.foldlM (applyHeaderOperation (connectionHeaderNames res) scope) res
    rw [connectionHeaderNames_of_foldlM hf]
    rfl

end AiGateway.Transforms
