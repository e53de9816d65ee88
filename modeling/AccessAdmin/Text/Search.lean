/-!
# Substring search

Plain, case-sensitive search of one text in another.
-/

namespace AccessAdmin.Text

/-- Whether `needle` stands somewhere in the characters. -/
def containsChars (needle : List Char) : List Char → Bool
  | [] => needle.isEmpty
  | c :: cs => needle.isPrefixOf (c :: cs) || containsChars needle cs

/-- Whether `needle` is a substring of `s`; the empty text is a substring of every text. -/
def contains (s needle : String) : Bool :=
  containsChars needle.toList s.toList

/-- Whether `s` begins with `start`. -/
def startsWith (s start : String) : Bool :=
  start.toList.isPrefixOf s.toList

end AccessAdmin.Text
