/-!
# JSON documents

A document as far as its text can be read. Where the text stops being JSON the document has a
`broken` part, and nothing after it; so what stands before the fault can still be looked at.
Objects keep the order and the repetitions of their fields.
-/

namespace AccessAdmin.Wire

/-- A JSON document. -/
inductive Json where
  | null
  | bool (b : Bool)
  /-- A number without fraction and exponent that fits 64 bits. -/
  | int (n : Int)
  /-- Any other number; `finite` tells whether a double of finite value is near it. -/
  | float (finite : Bool)
  | str (s : String)
  /-- A scalar without quotes, in a format that has such; it reads as what is asked for. -/
  | plain (s : String)
  /-- A string with an escape that stands for no character. -/
  | halfPair
  | arr (items : List Json)
  | obj (fields : List (String × Json))
  | broken
deriving Repr, Inhabited

namespace Json

/-- A list of texts. -/
def texts (xs : List String) : Json := arr (xs.map str)

/-- A value or null. -/
def orNull {α : Type} (f : α → Json) : Option α → Json
  | none => null
  | some a => f a

mutual

/-- How deep lists and objects are nested. -/
def depth : Json → Nat
  | arr items => depthOfItems items + 1
  | obj fields => depthOfFields fields + 1
  | _ => 0

/-- The greatest depth among some items. -/
def depthOfItems : List Json → Nat
  | [] => 0
  | j :: rest => max (depth j) (depthOfItems rest)

/-- The greatest depth among the values of some fields. -/
def depthOfFields : List (String × Json) → Nat
  | [] => 0
  | (_, j) :: rest => max (depth j) (depthOfFields rest)

end

end Json

end AccessAdmin.Wire
