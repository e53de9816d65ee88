/-!
# UTF-8

Texts as octets and back. Octets that are no UTF-8 either make reading fail or are replaced: every
longest beginning of a character that breaks off, and every octet that can begin none, becomes one
U+FFFD.

* `decode?`: reads octets, or fails.
* `decodeLossy`: reads octets and replaces what is no UTF-8.
-/

namespace AccessAdmin.Text.Utf8

/-- The octets of a text. -/
def encode (s : String) : List UInt8 :=
  s.toList.flatMap String.utf8EncodeChar

/-- What the first octet of a longer character says: how many octets follow, the bits it holds
itself, and the least and the greatest second octet. -/
structure Lead where
  following : Nat
  bits : Nat
  low : Nat
  high : Nat
deriving DecidableEq, Repr

/-- The first octet of a character of two to four octets. -/
def lead? (b : Nat) : Option Lead :=
  if 0xC2 ≤ b ∧ b ≤ 0xDF then some ⟨1, b - 0xC0, 0x80, 0xBF⟩
  else if b = 0xE0 then some ⟨2, 0, 0xA0, 0xBF⟩
  else if b = 0xED then some ⟨2, 0xD, 0x80, 0x9F⟩
  else if 0xE1 ≤ b ∧ b ≤ 0xEF then some ⟨2, b - 0xE0, 0x80, 0xBF⟩
  else if b = 0xF0 then some ⟨3, 0, 0x90, 0xBF⟩
  else if 0xF1 ≤ b ∧ b ≤ 0xF3 then some ⟨3, b - 0xF0, 0x80, 0xBF⟩
  else if b = 0xF4 then some ⟨3, 4, 0x80, 0x8F⟩
  else none

/-- The octets after the first of a character, with the bits so far: the character's number, or
`none` where it breaks off, and what follows. -/
def tail (bits : Nat) : Nat → Nat → Nat → List UInt8 → Option Nat × List UInt8
  | 0, _, _, bs => (some bits, bs)
  | _ + 1, _, _, [] => (none, [])
  | n + 1, low, high, b :: bs =>
    if low ≤ b.toNat ∧ b.toNat ≤ high then tail (bits * 64 + (b.toNat - 0x80)) n 0x80 0xBF bs
    else (none, b :: bs)

/-- The first character of some octets, or `none` where there is no character, and what follows. -/
def next (b : UInt8) (bs : List UInt8) : Option Char × List UInt8 :=
  if b.toNat < 0x80 then (some (Char.ofNat b.toNat), bs)
  else
    match lead? b.toNat with
    | none => (none, bs)
    | some l =>
      let (n, rest) := tail l.bits l.following l.low l.high bs
      (n.map Char.ofNat, rest)

/-- The characters of some octets, with `none` for each part that is no character. Every step takes
at least one octet. -/
def decodeWithin : Nat → List UInt8 → List (Option Char)
  | 0, _ => []
  | _ + 1, [] => []
  | steps + 1, b :: bs =>
    let (c, rest) := next b bs
    c :: decodeWithin steps rest

/-- The characters of some octets, with `none` for each part that is no character. -/
def decodeParts (bs : List UInt8) : List (Option Char) := decodeWithin bs.length bs

/-- The text of some octets, if they are UTF-8. -/
def decode? (bs : List UInt8) : Option String :=
  String.ofList <$> (decodeParts bs).mapM id

/-- The text of some octets; what is no UTF-8 is replaced. -/
def decodeLossy (bs : List UInt8) : String :=
  String.ofList ((decodeParts bs).map fun c => c.getD '\ufffd')

end AccessAdmin.Text.Utf8
