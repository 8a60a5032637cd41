import AiGateway.Lib.Json

/-! Base64 with padding: groups of three bytes are encoded apart from each other. -/
namespace AiGateway.Lib.Base64
open List

def symbol (sextet : ℕ) : UInt8 :=
  (utf8 "ABCDEFGHIJKLMNOPQRSTUVWXYZabcdefghijklmnopqrstuvwxyz0123456789+/").getD sextet 0

def encode : Bytes → Bytes
  | a :: b :: c :: rest => symbol (a.toNat / 4) :: symbol (a.toNat % 4 * 16 + b.toNat / 16) ::
      symbol (b.toNat % 16 * 4 + c.toNat / 64) :: symbol (c.toNat % 64) :: encode rest
  | [a, b] => [symbol (a.toNat / 4), symbol (a.toNat % 4 * 16 + b.toNat / 16),
      symbol (b.toNat % 16 * 4), 61]
  | [a] => [symbol (a.toNat / 4), symbol (a.toNat % 4 * 16), 61, 61]
  | [] => []

theorem length_encode (bs : Bytes) : (encode bs).length = (bs.length + 2) / 3 * 4 := by
  fun_induction encode bs with
  | case1 a b c rest ih =>
    simp only [length_cons, ih]
    omega
  | case2 a b => simp
  | case3 a => simp
  | case4 => rfl

/-- Whole groups are encoded on their own. -/
theorem encode_append {bs : Bytes} (h : bs.length % 3 = 0) (tail : Bytes) :
    encode (bs ++ tail) = encode bs ++ encode tail := by
  fun_induction encode bs with
  | case1 a b c rest ih =>
    simp only [length_cons] at h
    simp [encode, ih (by omega)]
  | case2 a b => cases h
  | case3 a => cases h
  | case4 => rfl

example : encode (utf8 "Man") = utf8 "TWFu" ∧ encode (utf8 "M") = utf8 "TQ==" := by decide +kernel

end AiGateway.Lib.Base64
