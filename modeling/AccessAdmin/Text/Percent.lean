import AccessAdmin.Text.Utf8

/-!
# Percent-encoded text

A percent sign with two hexadecimal digits stands for an octet. A percent sign without them stands
for itself.
-/

namespace AccessAdmin.Text.Percent

/-- The value of a hexadecimal digit. -/
def hexValue? (b : UInt8) : Option Nat :=
  let n := b.toNat
  if 0x30 ≤ n ∧ n ≤ 0x39 then some (n - 0x30)
  else if 0x41 ≤ n ∧ n ≤ 0x46 then some (n - 0x41 + 10)
  else if 0x61 ≤ n ∧ n ≤ 0x66 then some (n - 0x61 + 10)
  else none

/-- The octets that some encoded octets stand for. -/
def decodeBytes : List UInt8 → List UInt8
  | [] => []
  | [b] => [b]
  | [b, c] => [b, c]
  | b :: h :: l :: rest =>
    if b.toNat = 0x25 then
      match hexValue? h, hexValue? l with
      | some h, some l => UInt8.ofNat (16 * h + l) :: decodeBytes rest
      | _, _ => b :: decodeBytes (h :: l :: rest)
    else b :: decodeBytes (h :: l :: rest)

/-- The text that an encoded text stands for, if that is UTF-8. -/
def decode? (s : String) : Option String :=
  Utf8.decode? (decodeBytes (Utf8.encode s))

/-- The text that an encoded text stands for; what is no UTF-8 is replaced. -/
def decodeLossy (s : String) : String :=
  Utf8.decodeLossy (decodeBytes (Utf8.encode s))

end AccessAdmin.Text.Percent
