import AccessAdmin.Wire.Json
import AccessAdmin.Wire.Plain

/-!
# The shape of a document

What a document has to look like to stand for a value, and what is wrong with one that does not.
Fields are taken in the order of the document, so the fault that comes first is the one reported;
that a field is missing shows only at the end of its object. Unknown fields are passed over. An
object may also be written as the list of its fields' values. A scalar that is empty, without
quotes, stands for an object without fields and for a list without items.

* `Shape`: how the fields of an object make up a value.
* `Shape.decode`: the value of a document.
-/

namespace AccessAdmin.Wire

/-- What is wrong with a document. -/
inductive DecodeError where
  /-- The text stops being JSON. -/
  | malformed
  | missingField (name : String)
  | duplicateField (name : String)
  | invalidType
  | invalidValue
  | unknownVariant (got : String) (known : List String)
  /-- A list of field values is too short or too long. -/
  | invalidLength
  /-- A text does not have the form that is asked for. -/
  | badText
deriving DecidableEq, Repr

/-- A reader of documents. -/
abbrev Decoder (α : Type) : Type := Json → Except DecodeError α

namespace DecodeError

/-- What is wrong with a document that is of another kind than the one asked for. -/
def ofKind : Json → DecodeError
  | .broken => malformed
  | .halfPair => malformed
  | .float false => malformed
  | _ => invalidType

/-- A list of words between backquotes, as alternatives. -/
def alternatives (words : List String) : String :=
  match words.map fun w => "`" ++ w ++ "`" with
  | [] => "nothing"
  | [w] => w
  | [v, w] => v ++ " or " ++ w
  | ws => "one of " ++ String.intercalate ", " ws

/-- The wording of a fault. -/
def message : DecodeError → String
  | malformed => "malformed document"
  | missingField name => "missing field `" ++ name ++ "`"
  | duplicateField name => "duplicate field `" ++ name ++ "`"
  | invalidType => "invalid type"
  | invalidValue => "invalid value"
  | unknownVariant got known =>
    "unknown variant `" ++ got ++ "`, expected " ++ alternatives known
  | invalidLength => "invalid length"
  | badText => "malformed text"

end DecodeError

namespace Decode

variable {α : Type}

/-- A string. -/
def text : Decoder String
  | .str s => .ok s
  | .plain s => .ok s
  | j => .error (.ofKind j)

/-- A truth value. -/
def bool : Decoder Bool
  | .bool b => .ok b
  | .plain s => (Plain.bool? s).elim (.error .invalidType) .ok
  | j => .error (.ofKind j)

/-- An integer between two bounds. -/
def intBetween (low high : Int) : Decoder Int
  | .int n => within n
  | .plain s => (Plain.int? s).elim (.error .invalidType) within
  | j => .error (.ofKind j)
where
  within (n : Int) : Except DecodeError Int :=
    if low ≤ n ∧ n ≤ high then .ok n else .error .invalidValue

/-- A signed integer of 32 bits. -/
def int32 : Decoder Int := intBetween Int32.minValue.toInt Int32.maxValue.toInt

/-- A signed integer of 64 bits. -/
def int64 : Decoder Int64 := fun j => do
  return Int64.ofInt (← intBetween Int64.minValue.toInt Int64.maxValue.toInt j)

/-- An unsigned integer of 32 bits. -/
def uint32 : Decoder UInt32 := fun j => do
  return UInt32.ofNat (← intBetween 0 (UInt32.size - 1) j).toNat

/-- An unsigned integer of 64 bits. -/
def uint64 : Decoder Nat := fun j => do
  return (← intBetween 0 (UInt64.size - 1) j).toNat

/-- A list. -/
def list (item : Decoder α) : Decoder (List α)
  | .arr items => items.mapM item
  | .plain "" => .ok []
  | j => .error (.ofKind j)

/-- A value or null. -/
def optional (item : Decoder α) : Decoder (Option α)
  | .null => .ok none
  | .plain s => if Plain.isNull s then .ok none else some <$> item (.plain s)
  | j => some <$> item j

/-- A text that stands for a value; any other text has the wrong form. -/
def parsed (read : String → Option α) : Decoder α := fun j => do
  match read (← text j) with
  | some a => .ok a
  | none => .error .badText

/-- One of some words, or an object whose only field is one of them with null. -/
def variant (read : String → Option α) (known : List String) : Decoder α
  | .str s => found s
  | .plain s => found s
  | .obj [(s, .null)] => found s
  | .obj [(_, .broken)] => .error .malformed
  | .obj [(s, _)] => do
    let _ ← found s
    .error .invalidType
  | .obj _ => .error .invalidValue
  | j => .error (.ofKind j)
where
  found (s : String) : Except DecodeError α :=
    match read s with
    | some a => .ok a
    | none => .error (.unknownVariant s known)

mutual

/-- Whether a document that is passed over is JSON to its end. -/
def isWhole : Json → Bool
  | .broken => false
  | .arr items => areWhole items
  | .obj fields => haveWholeValues fields
  | _ => true

/-- Whether some items are JSON to their end. -/
def areWhole : List Json → Bool
  | [] => true
  | j :: rest => isWhole j && areWhole rest

/-- Whether the values of some fields are JSON to their end. -/
def haveWholeValues : List (String × Json) → Bool
  | [] => true
  | (_, j) :: rest => isWhole j && haveWholeValues rest

end

/-- Passes over a document. -/
def skip (j : Json) : Except DecodeError Unit :=
  if isWhole j then .ok () else .error .malformed

end Decode

/-- How the fields of an object make up a value: what is known before the first field, what a field
adds, and what comes out at the end. -/
structure Shape (α : Type) where
  State : Type
  start : State
  /-- The names of the fields, in their order. -/
  names : List String
  /-- Takes a field; `none` when there is no field of this name. -/
  take : String → Json → State → Option (Except DecodeError State)
  /-- What comes out, of an object whose fields have names or of a list of their values. -/
  finish : (named : Bool) → State → Except DecodeError α

namespace Shape

variable {α β : Type}

/-- A field, and what is known of it where it is missing. -/
def field (name : String) (read : Decoder α) (missing : (named : Bool) → Except DecodeError α) :
    Shape α where
  State := Option α
  start := none
  names := [name]
  take key j seen :=
    if key = name then
      some (if seen.isSome then .error (.duplicateField name) else some <$> read j)
    else none
  finish named seen := seen.elim (missing named) .ok

/-- A field that has to be there. -/
def required (name : String) (read : Decoder α) : Shape α :=
  field name read fun named => .error (if named then .missingField name else .invalidLength)

/-- A field that may be missing. -/
def optional (name : String) (read : Decoder α) (default : α) : Shape α :=
  field name read fun _ => .ok default

/-- A field that may be null, or missing where fields have names. -/
def nullable (name : String) (read : Decoder α) : Shape (Option α) :=
  field name (Decode.optional read) fun named => if named then .ok none else .error .invalidLength

/-- Changes the value. -/
def map (f : α → β) (s : Shape α) : Shape β :=
  { s with finish := fun named st => f <$> s.finish named st }

/-- The fields of both sides. -/
def seq (f : Shape (α → β)) (a : Shape α) : Shape β where
  State := f.State × a.State
  start := (f.start, a.start)
  names := f.names ++ a.names
  take key j st :=
    match f.take key j st.1 with
    | some r => some ((·, st.2) <$> r)
    | none => (a.take key j st.2).map fun r => (st.1, ·) <$> r
  finish named st := do
    let g ← f.finish named st.1
    let x ← a.finish named st.2
    return g x

/-- No fields. -/
def noFields : Shape Unit where
  State := Unit
  start := ()
  names := []
  take _ _ _ := none
  finish _ _ := .ok ()

instance : Functor Shape where
  map := map

instance : Seq Shape where
  seq f a := seq f (a ())

/-- Takes the fields of an object in their order. -/
def takeFields (s : Shape α) : s.State → List (String × Json) → Except DecodeError s.State
  | st, [] => .ok st
  | st, (key, j) :: rest =>
    match s.take key j st with
    | some (.ok st) => takeFields s st rest
    | some (.error e) => .error e
    | none => do
      Decode.skip j
      takeFields s st rest

/-- The value of a document. -/
def decode (s : Shape α) : Decoder α
  | .obj fields => do s.finish true (← s.takeFields s.start fields)
  | .plain "" => s.finish true s.start
  | .arr items => do
    let st ← s.takeFields s.start (s.names.zip items)
    let extra := items.drop s.names.length
    let a ← s.finish false st
    if extra.isEmpty then return a
    else .error (if extra.all Decode.isWhole then .invalidLength else .malformed)
  | j => .error (.ofKind j)

end Shape

end AccessAdmin.Wire
