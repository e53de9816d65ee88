/-!
# Blank characters

The characters with the Unicode property White_Space, and trimming them off both ends of a text.
U+200B and U+FEFF do not have the property, so they are kept.
-/

namespace AccessAdmin.Text

/-- The code points of White_Space outside the Latin block: spaces of set width, the two
separators, and the ideographic space. -/
def blankRanges : List (Nat × Nat) :=
  [(0x09, 0x0D), (0x20, 0x20), (0x85, 0x85), (0xA0, 0xA0), (0x1680, 0x1680), (0x2000, 0x200A),
   (0x2028, 0x2029), (0x202F, 0x202F), (0x205F, 0x205F), (0x3000, 0x3000)]

/-- Whether a character has the property White_Space. -/
def isBlank (c : Char) : Bool :=
  blankRanges.any fun r => r.1 ≤ c.toNat && c.toNat ≤ r.2

/-- Drops blank characters at both ends. -/
def trimChars (cs : List Char) : List Char :=
  ((cs.dropWhile isBlank).reverse.dropWhile isBlank).reverse

/-- A text without the blank characters at its ends. -/
def trim (s : String) : String :=
  String.ofList (trimChars s.toList)

/-- Whether a text holds nothing but blank characters. -/
def isAllBlank (s : String) : Bool :=
  s.toList.all isBlank

/-- The pieces between blank characters, of which some may be empty. -/
def blankSplit : List Char → List (List Char)
  | [] => [[]]
  | c :: cs =>
    if isBlank c then [] :: blankSplit cs
    else
      match blankSplit cs with
      | [] => [[c]]
      | piece :: rest => (c :: piece) :: rest

/-- The words of a text, with blank characters around each. -/
def words (cs : List Char) : List (List Char) :=
  (blankSplit cs).filter fun piece => !piece.isEmpty

end AccessAdmin.Text
