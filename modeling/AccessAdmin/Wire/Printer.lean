import AccessAdmin.Text.Quoted
import AccessAdmin.Timestamp
import AccessAdmin.Wire.Json

/-!
# Writing JSON text

Documents are written without gaps. Quotes, backslashes and controls are escaped, every other
character is written as it is.
-/

namespace AccessAdmin.Wire.Json

/-- How a character is written inside a string. -/
def escaped (c : Char) : List Char :=
  match c with
  | '"' => ['\\', '"']
  | '\\' => ['\\', '\\']
  | '\n' => ['\\', 'n']
  | '\r' => ['\\', 'r']
  | '\t' => ['\\', 't']
  | '\x08' => ['\\', 'b']
  | '\x0c' => ['\\', 'f']
  | c =>
    if c.toNat < 0x20 then
      let hex := Text.hexDigits c.toNat
      ['\\', 'u'] ++ List.replicate (4 - hex.length) '0' ++ hex
    else [c]

/-- A string with its quotes. -/
def renderText (s : String) : List Char := '"' :: s.toList.flatMap escaped ++ ['"']

mutual

/-- The text of a document. A part that is no document is written as null. -/
def renderChars : Json → List Char
  | null => "null".toList
  | bool b => (if b then "true" else "false").toList
  | int n => (toString n).toList
  | str s => renderText s
  | plain s => renderText s
  | arr items => '[' :: renderItems true items
  | obj fields => '\x7b' :: renderFields true fields
  | float _ => "null".toList
  | halfPair => "null".toList
  | broken => "null".toList

/-- The items of an array and its closing bracket. -/
def renderItems : Bool → List Json → List Char
  | _, [] => [']']
  | first, x :: rest => (if first then [] else [',']) ++ renderChars x ++ renderItems false rest

/-- The fields of an object and its closing brace. -/
def renderFields : Bool → List (String × Json) → List Char
  | _, [] => ['\x7d']
  | first, (k, x) :: rest =>
    (if first then [] else [',']) ++ renderText k ++ ':' :: renderChars x ++ renderFields false rest

end

/-- The text of a document. -/
def render (j : Json) : String := String.ofList (renderChars j)

end AccessAdmin.Wire.Json
