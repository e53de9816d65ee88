/-!
# Patterns of `LIKE`

In a pattern `%` stands for any text, `_` for any one character, and a backslash takes away what
the next character stands for.

* `Pattern.escape`: the pattern that stands for one text alone.
* `Pattern.accepts`: the texts that a pattern stands for.
-/

namespace AccessAdmin.Database.Pattern

/-- The characters that have a meaning of their own in a pattern. -/
def isSpecial (c : Char) : Bool :=
  c == '\\' || c == '%' || c == '_'

/-- The pattern that stands for exactly these characters. -/
def escapeChars : List Char → List Char
  | [] => []
  | c :: cs => if isSpecial c then '\\' :: c :: escapeChars cs else c :: escapeChars cs

/-- The pattern that stands for exactly this text. -/
def escape (s : String) : String :=
  String.ofList (escapeChars s.toList)

/-- The pattern of the texts in which `s` stands somewhere. -/
def containing (s : String) : String :=
  "%" ++ escape s ++ "%"

/-- The pattern of the texts that go on after `s` with a slash. -/
def below (s : String) : String :=
  escape s ++ "/%"

/-- Whether some end of the text is accepted. -/
def anyEnd (accepts : List Char → Bool) : List Char → Bool
  | [] => accepts []
  | c :: cs => accepts (c :: cs) || anyEnd accepts cs

/-- Whether a pattern stands for a text. A backslash at the end stands for nothing. -/
def acceptsChars : List Char → List Char → Bool
  | [], t => t.isEmpty
  | '%' :: p, t => anyEnd (acceptsChars p) t
  | '\\' :: c :: p, t =>
    match t with
    | d :: t => d == c && acceptsChars p t
    | [] => false
  | ['\\'], _ => false
  | '_' :: p, t =>
    match t with
    | _ :: t => acceptsChars p t
    | [] => false
  | c :: p, t =>
    match t with
    | d :: t => d == c && acceptsChars p t
    | [] => false

/-- Whether a pattern stands for a text. -/
def accepts (pattern text : String) : Bool :=
  acceptsChars pattern.toList text.toList

end AccessAdmin.Database.Pattern
