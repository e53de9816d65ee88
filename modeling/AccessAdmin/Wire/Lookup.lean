import AccessAdmin.Wire.Json

/-!
# Looking into documents

Looking for the parts of a document by name. What is missing, or is of another kind than the one
asked for, is passed over: it is `none`, or a value given for this case.
-/

namespace AccessAdmin.Wire.Json

/-! ## What a document is -/

/-- The text that a document is. -/
def asText? : Json → Option String
  | str s => some s
  | _ => none

/-- The integer that a document is. -/
def asNumber? : Json → Option Int
  | int n => some n
  | _ => none

/-- The truth value that a document is. -/
def asFlag? : Json → Option Bool
  | bool b => some b
  | _ => none

/-- The items of a list. -/
def elements : Json → List Json
  | arr items => items
  | _ => []

/-- Whether a document is null. -/
def isNull : Json → Bool
  | null => true
  | _ => false

/-! ## What is in it -/

/-- A part of an object; a missing one is null. -/
def part (j : Json) (name : String) : Json :=
  match j with
  | obj fields => (fields.lookup name).getD null
  | _ => null

/-- Whether a part is there. -/
def has (j : Json) (name : String) : Bool := !(j.part name).isNull

/-- A text, if it is there. -/
def text? (j : Json) (name : String) : Option String := (j.part name).asText?

/-- A text, or the empty one. -/
def text (j : Json) (name : String) : String := (j.text? name).getD ""

/-- An integer, if it is there. -/
def number? (j : Json) (name : String) : Option Int := (j.part name).asNumber?

/-- An integer, or a given one. -/
def number (j : Json) (name : String) (missing : Int := 0) : Int := (j.number? name).getD missing

/-- A natural number, if it is there. -/
def count? (j : Json) (name : String) : Option Nat := (j.number? name).map Int.toNat

/-- A natural number, or a given one. -/
def count (j : Json) (name : String) (missing : Nat) : Nat := (j.count? name).getD missing

/-- A truth value, if it is there. -/
def flag? (j : Json) (name : String) : Option Bool := (j.part name).asFlag?

/-- A truth value, or false. -/
def flag (j : Json) (name : String) : Bool := (j.flag? name).getD false

/-- The items of a list, or none. -/
def items (j : Json) (name : String) : List Json := (j.part name).elements

/-- The texts of a list, or none. -/
def textList (j : Json) (name : String) : List String := (j.items name).filterMap asText?

/-- The texts of a list, if it is there. -/
def textList? (j : Json) (name : String) : Option (List String) :=
  if j.has name then some (j.textList name) else none

end AccessAdmin.Wire.Json
