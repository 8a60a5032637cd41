import AiGateway.Lib.Bytes
import AiGateway.Lib.MachineInt

/-! JSON values with objects sorted by key, and pointers into them. -/
namespace AiGateway.Lib
open List

/-- The bytes of a text literal. -/
def utf8 (text : String) : Bytes := text.toUTF8.data.toList

/-- An integer of 64 bits, signed or unsigned, or the bits of a binary float. -/
inductive JsonNumber where
  | int (value : ℤ)
  | float (bits : BitVec 64)
  deriving DecidableEq

/-- Texts are UTF-8 bytes. -/
inductive Json where
  | null
  | bool (value : Bool)
  | number (value : JsonNumber)
  | string (text : Bytes)
  | array (items : List Json)
  | object (members : List (Bytes × Json))

namespace Json

mutual

def decEq : (a b : Json) → Decidable (a = b)
  | null, null => isTrue rfl
  | bool p, bool q => decidable_of_iff (p = q) (by simp)
  | number p, number q => decidable_of_iff (p = q) (by simp)
  | string p, string q => decidable_of_iff (p = q) (by simp)
  | array p, array q => @decidable_of_iff _ (p = q) (by simp) (decEqItems p q)
  | object p, object q => @decidable_of_iff _ (p = q) (by simp) (decEqMembers p q)
  | null, bool _ | null, number _ | null, string _ | null, array _ | null, object _
  | bool _, null | bool _, number _ | bool _, string _ | bool _, array _ | bool _, object _
  | number _, null | number _, bool _ | number _, string _ | number _, array _ | number _, object _
  | string _, null | string _, bool _ | string _, number _ | string _, array _ | string _, object _
  | array _, null | array _, bool _ | array _, number _ | array _, string _ | array _, object _
  | object _, null | object _, bool _ | object _, number _ | object _, string _
  | object _, array _ => isFalse Json.noConfusion

def decEqItems : (a b : List Json) → Decidable (a = b)
  | [], [] => isTrue rfl
  | [], _ :: _ => isFalse (cons_ne_nil _ _).symm
  | _ :: _, [] => isFalse (cons_ne_nil _ _)
  | p :: ps, q :: qs =>
    @decidable_of_iff _ (p = q ∧ ps = qs) (by simp)
      (@instDecidableAnd _ _ (decEq p q) (decEqItems ps qs))

def decEqMembers : (a b : List (Bytes × Json)) → Decidable (a = b)
  | [], [] => isTrue rfl
  | [], _ :: _ => isFalse (cons_ne_nil _ _).symm
  | _ :: _, [] => isFalse (cons_ne_nil _ _)
  | (k, p) :: ps, (l, q) :: qs =>
    @decidable_of_iff _ ((k = l ∧ p = q) ∧ ps = qs) (by simp)
      (@instDecidableAnd _ _ (@instDecidableAnd _ _ (inferInstance) (decEq p q))
        (decEqMembers ps qs))

end

instance : DecidableEq Json := decEq

def isObject : Json → Bool
  | object _ => true
  | _ => false

def isNull : Json → Bool
  | null => true
  | _ => false

def asStr : Json → Option Bytes
  | string text => some text
  | _ => none

def asArray : Json → Option (List Json)
  | array items => some items
  | _ => none

def asObject : Json → Option (List (Bytes × Json))
  | object members => some members
  | _ => none

def asI64 : Json → Option I64
  | number (.int value) => Signed.ofInt? value
  | _ => none

def asU64 : Json → Option ℕ
  | number (.int value) => if 0 ≤ value ∧ value < 2 ^ 64 then some value.toNat else none
  | _ => none

def asBool : Json → Option Bool
  | bool value => some value
  | _ => none

def get (value : Json) (key : Bytes) : Option Json :=
  match value with
  | object members => members.lookup key
  | _ => none

end Json

/-- Floats are compared by value, so the two zeros are equal. -/
def JsonNumber.sameValue : JsonNumber → JsonNumber → Bool
  | .int a, .int b => decide (a = b)
  | .float a, .float b => decide (a = b) || decide (a <<< 1 = 0 ∧ b <<< 1 = 0)
  | _, _ => false

namespace Json

mutual

/-- Equality of values as the program compares them. -/
def sameValue : Json → Json → Bool
  | null, null => true
  | bool a, bool b => decide (a = b)
  | number a, number b => a.sameValue b
  | string a, string b => decide (a = b)
  | array a, array b => sameItems a b
  | object a, object b => sameMembers a b
  | _, _ => false

def sameItems : List Json → List Json → Bool
  | [], [] => true
  | a :: as, b :: bs => sameValue a b && sameItems as bs
  | _, _ => false

def sameMembers : List (Bytes × Json) → List (Bytes × Json) → Bool
  | [], [] => true
  | (k, a) :: as, (l, b) :: bs => decide (k = l) && sameValue a b && sameMembers as bs
  | _, _ => false

end

end Json

/-- Replaces every pair of bytes, from left to right. -/
def replacePair (first second replacement : UInt8) : Bytes → Bytes
  | a :: b :: rest =>
    if a = first ∧ b = second then replacement :: replacePair first second replacement rest
    else a :: replacePair first second replacement (b :: rest)
  | short => short

/-- A reference token of a pointer with its escapes resolved. -/
def unescapeToken (token : Bytes) : Bytes :=
  replacePair 126 48 126 (replacePair 126 49 47 token)

def isDigit (byte : UInt8) : Bool := 48 ≤ byte && byte ≤ 57

/-- A position in an array: digits without a leading zero, within the machine word. -/
def parseIndex (token : Bytes) : Option ℕ :=
  if token = [] ∨ token.any (fun byte => !isDigit byte) ∨
      (token.head? = some 48 ∧ token.length ≠ 1) then none
  else
    let value := token.foldl (fun total byte => 10 * total + (byte.toNat - 48)) 0
    if value < 2 ^ 64 then some value else none

namespace Json

/-- The child a token names. -/
def child (value : Json) (token : Bytes) : Option Json :=
  match value with
  | object members => members.lookup token
  | array items => (parseIndex token).bind (fun index => items[index]?)
  | _ => none

def descend : Json → List Bytes → Option Json
  | value, [] => some value
  | value, token :: tokens => (value.child token).bind (fun next => next.descend tokens)

end Json

/-- The tokens of a pointer: none for the empty one, otherwise each is preceded by a slash. -/
def pointerTokens (pointer : Bytes) : Option (List Bytes) :=
  match pointer with
  | [] => some []
  | byte :: rest => if byte = 47 then some ((rest.splitOn 47).map unescapeToken) else none

def Json.pointer (value : Json) (pointer : Bytes) : Option Json :=
  (pointerTokens pointer).bind value.descend

namespace Json

/-- Every object has its keys in order, each once. -/
inductive Ordered : Json → Prop where
  | null : Ordered .null
  | bool (value : Bool) : Ordered (.bool value)
  | number (value : JsonNumber) : Ordered (.number value)
  | string (text : Bytes) : Ordered (.string text)
  | array {items : List Json} (h : ∀ item ∈ items, Ordered item) : Ordered (.array items)
  | object {members : List (Bytes × Json)} (hkeys : (members.map Prod.fst).Pairwise (· < ·))
      (h : ∀ member ∈ members, Ordered member.2) : Ordered (.object members)

end Json

/-- A parser and a serializer of JSON texts; what is parsed has its objects in order, and a serialized
text is on one line. -/
structure JsonCodec where
  parse : Bytes → Option Json
  serialize : Json → Bytes
  ordered : ∀ text value, parse text = some value → value.Ordered
  oneLine : ∀ value, ∀ byte ∈ serialize value, byte ≠ 10 ∧ byte ≠ 13

end AiGateway.Lib
