/-!
# Words and octets

Words of 64 bits as octets in both orders, numbers of 32 bits as octets, turning the bits of a
word, and the text of octets.
-/

namespace AccessAdmin.Crypto

/-- The low octets of a number, the lowest first. -/
def littleEndian (octets n : Nat) : List UInt8 :=
  (List.range octets).map fun i => UInt8.ofNat (n >>> (8 * i))

/-- The low octets of a number, the lowest last. -/
def bigEndian (octets n : Nat) : List UInt8 := (littleEndian octets n).reverse

/-- The number that some octets write, the lowest first. -/
def ofLittleEndian : List UInt8 → Nat
  | [] => 0
  | b :: bs => b.toNat + 256 * ofLittleEndian bs

/-- The number that some octets write, the lowest last. -/
def ofBigEndian (bs : List UInt8) : Nat := ofLittleEndian bs.reverse

/-- Some octets in groups of a size; the last group may be shorter. -/
def inGroups (size : Nat) (bs : List UInt8) : List (List UInt8) :=
  (List.range ((bs.length + size - 1) / size)).map fun i => (bs.drop (i * size)).take size

/-- A word turned to the right. -/
def rotateRight (x : UInt64) (n : Nat) : UInt64 :=
  (x >>> UInt64.ofNat n) ||| (x <<< UInt64.ofNat (64 - n))

/-- The words that some octets write, the lowest octet first. -/
def wordsOf (bs : List UInt8) : List UInt64 :=
  (inGroups 8 bs).map fun g => UInt64.ofNat (ofLittleEndian g)

/-- The octets of some words, the lowest first. -/
def octetsOf (ws : List UInt64) : List UInt8 := ws.flatMap fun w => littleEndian 8 w.toNat

/-- Some octets in hexadecimal digits, two for each. -/
def hexText (bs : List UInt8) : String :=
  String.ofList (bs.flatMap fun b => [Nat.digitChar (b.toNat / 16), Nat.digitChar (b.toNat % 16)])

end AccessAdmin.Crypto
