import AccessAdmin.Wire.Json

/-!
# Reading JSON text

The text is read from the left. Whatever follows a complete document is not looked at.

* `Json.read`: the document at the start of a text.
-/

namespace AccessAdmin.Wire.Json

namespace Grammar

/-- A part of a text that was read, with what follows it; nothing follows a broken part. -/
abbrev Reading : Type := Json × Option (List Char)

/-- Whether a character may stand between the parts of a document. -/
def isGap (c : Char) : Bool := c == ' ' || c == '\n' || c == '\t' || c == '\r'

/-- Drops the characters between two parts. -/
def skipGap (cs : List Char) : List Char := cs.dropWhile isGap

/-! ## Numbers -/

/-- The digits at the start of a text and what follows them. -/
def digits (cs : List Char) : List Char × List Char :=
  (cs.takeWhile Char.isDigit, cs.dropWhile Char.isDigit)

/-- The number that some decimal digits write. -/
def natOfDigits (ds : List Char) : Nat :=
  ds.foldl (fun n d => n * 10 + (d.toNat - '0'.toNat)) 0

/-- Whether `n · 10 ^ e` rounds to a finite double. -/
def isFinite (n : Nat) (e : Int) : Bool :=
  let size := (toString n).length
  if n = 0 ∨ (size : Int) + e < 309 then true
  else if 309 < (size : Int) + e then false
  else
    let limit := Nat.pow 2 1024 - Nat.pow 2 970
    if 0 ≤ e then n * Nat.pow 10 e.toNat < limit else n < limit * Nat.pow 10 e.natAbs

/-- A number without fraction and exponent. A negative zero, and a number beyond 64 bits, is taken
for a fraction. -/
def integer (negative : Bool) (n : Nat) : Json :=
  if negative then
    if n = 0 ∨ -(n : Int) < Int64.minValue.toInt then float (isFinite n 0) else int (-n)
  else if n < UInt64.size then int n
  else float (isFinite n 0)

/-- The exponent of a number, if there is one. -/
def exponent : List Char → Option (Int × List Char)
  | c :: cs =>
    if c = 'e' ∨ c = 'E' then
      let (sign, cs) : Int × List Char := match cs with
        | '+' :: cs => (1, cs)
        | '-' :: cs => (-1, cs)
        | cs => (1, cs)
      let (ds, rest) := digits cs
      if ds.isEmpty then none else some (sign * natOfDigits ds, rest)
    else some (0, c :: cs)
  | [] => some (0, [])

/-- What follows the integral digits of a number. -/
def numberTail (negative : Bool) (whole : List Char) (cs : List Char) : Reading :=
  let fraction : Option (List Char × List Char) := match cs with
    | '.' :: cs =>
      let (ds, rest) := digits cs
      if ds.isEmpty then none else some (ds, rest)
    | cs => some ([], cs)
  match fraction with
  | none => (broken, none)
  | some (ds, rest) =>
    match exponent rest with
    | none => (broken, none)
    | some (e, after) =>
      if ds.isEmpty ∧ after.length = rest.length then (integer negative (natOfDigits whole), some after)
      else (float (isFinite (natOfDigits (whole ++ ds)) (e - ds.length)), some after)

/-- A number. -/
def number (cs : List Char) : Reading :=
  let (negative, cs) := match cs with
    | '-' :: cs => (true, cs)
    | cs => (false, cs)
  let (whole, rest) := digits cs
  match whole with
  | [] => (broken, none)
  | '0' :: _ :: _ => (broken, none)
  | whole => numberTail negative whole rest

/-! ## Strings -/

/-- The value of a hexadecimal digit. -/
def hexDigit? (c : Char) : Option Nat :=
  if '0' ≤ c ∧ c ≤ '9' then some (c.toNat - '0'.toNat)
  else if 'a' ≤ c ∧ c ≤ 'f' then some (c.toNat - 'a'.toNat + 10)
  else if 'A' ≤ c ∧ c ≤ 'F' then some (c.toNat - 'A'.toNat + 10)
  else none

/-- Four hexadecimal digits. -/
def hex4? (a b c d : Char) : Option Nat := do
  return ((← hexDigit? a) * 16 + (← hexDigit? b)) * 256 + (← hexDigit? c) * 16 + (← hexDigit? d)

/-- What an escape of one letter stands for. -/
def shortEscape? : Char → Option Char
  | '"' => some '"'
  | '\\' => some '\\'
  | '/' => some '/'
  | 'b' => some '\x08'
  | 'f' => some '\x0c'
  | 'n' => some '\n'
  | 'r' => some '\r'
  | 't' => some '\t'
  | _ => none

/-- The rest of a string after its opening quote; `whole` is false once an escape stood for half a
pair of surrogates. Every step takes at least one character. -/
def stringTail : Nat → Bool → List Char → List Char → Reading
  | 0, _, _, _ => (broken, none)
  | steps + 1, whole, acc, cs =>
    match cs with
    | [] => (broken, none)
    | '"' :: cs => (if whole then str (String.ofList acc.reverse) else halfPair, some cs)
    | '\\' :: 'u' :: a :: b :: c :: d :: cs =>
      match hex4? a b c d with
      | none => (broken, none)
      | some n =>
        if 0xD800 ≤ n ∧ n < 0xDC00 then
          match cs with
          | '\\' :: 'u' :: a :: b :: c :: d :: rest =>
            match hex4? a b c d with
            | none => (broken, none)
            | some m =>
              if 0xDC00 ≤ m ∧ m < 0xE000 then
                let joined := 0x10000 + (n - 0xD800) * 0x400 + (m - 0xDC00)
                stringTail steps whole (Char.ofNat joined :: acc) rest
              else stringTail steps false acc cs
          | _ => stringTail steps false acc cs
        else if 0xDC00 ≤ n ∧ n < 0xE000 then stringTail steps false acc cs
        else stringTail steps whole (Char.ofNat n :: acc) cs
    | '\\' :: c :: cs =>
      match shortEscape? c with
      | none => (broken, none)
      | some c => stringTail steps whole (c :: acc) cs
    | c :: cs =>
      if c.toNat < 0x20 ∨ c = '\\' then (broken, none) else stringTail steps whole (c :: acc) cs

/-- The rest of a string after its opening quote. -/
def string (cs : List Char) : Reading := stringTail (cs.length + 1) true [] cs

/-! ## Documents -/

/-- A literal word. -/
def word (w : String) (j : Json) (cs : List Char) : Reading :=
  if w.toList.isPrefixOf cs then (j, some (cs.drop w.length)) else (broken, none)

mutual

/-- The document at the start of a text. -/
def value : Nat → List Char → Reading
  | 0, _ => (broken, none)
  | steps + 1, cs =>
    match skipGap cs with
    | [] => (broken, none)
    | '"' :: cs => string cs
    | '[' :: cs =>
      match skipGap cs with
      | ']' :: cs => (arr [], some cs)
      | cs =>
        let (items, rest) := items steps cs
        (arr items, rest)
    | '\x7b' :: cs =>
      match skipGap cs with
      | '\x7d' :: cs => (obj [], some cs)
      | cs =>
        let (fields, rest) := fields steps cs
        (obj fields, rest)
    | 't' :: cs => word "true" (bool true) ('t' :: cs)
    | 'f' :: cs => word "false" (bool false) ('f' :: cs)
    | 'n' :: cs => word "null" null ('n' :: cs)
    | cs => number cs

/-- The items of an array up to its closing bracket. -/
def items : Nat → List Char → List Json × Option (List Char)
  | 0, _ => ([broken], none)
  | steps + 1, cs =>
    match value steps cs with
    | (item, none) => ([item], none)
    | (item, some cs) =>
      match skipGap cs with
      | ']' :: cs => ([item], some cs)
      | ',' :: cs =>
        let (more, rest) := items steps cs
        (item :: more, rest)
      | _ => ([item, broken], none)

/-- The fields of an object up to its closing brace. -/
def fields : Nat → List Char → List (String × Json) × Option (List Char)
  | 0, _ => ([("", broken)], none)
  | steps + 1, cs =>
    match skipGap cs with
    | '"' :: cs =>
      match string cs with
      | (str key, some cs) =>
        match skipGap cs with
        | ':' :: cs =>
          match value steps cs with
          | (item, none) => ([(key, item)], none)
          | (item, some cs) =>
            match skipGap cs with
            | '\x7d' :: cs => ([(key, item)], some cs)
            | ',' :: cs =>
              let (more, rest) := fields steps cs
              ((key, item) :: more, rest)
            | _ => ([(key, item), ("", broken)], none)
        | _ => ([("", broken)], none)
      | _ => ([("", broken)], none)
    | _ => ([("", broken)], none)

end

end Grammar

/-- The document at the start of a text. -/
def read (text : String) : Json :=
  let cs := text.toList
  (Grammar.value (2 * cs.length + 2) cs).1

end AccessAdmin.Wire.Json
