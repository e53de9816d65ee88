import AccessAdmin.Text.Number

/-!
# Plain scalars

A scalar without quotes reads as what is asked for: as a text by its characters, as a truth value,
a number or nothing if it is written like one. A number with leading zeros is none; one that begins
with `0x`, `0o` or `0b` is written in that base.
-/

namespace AccessAdmin.Wire.Plain

/-- Whether a scalar stands for nothing. -/
def isNull (s : String) : Bool := ["", "~", "null", "Null", "NULL"].contains s

/-- The truth value that a scalar stands for. -/
def bool? (s : String) : Option Bool :=
  if ["true", "True", "TRUE"].contains s then some true
  else if ["false", "False", "FALSE"].contains s then some false
  else none

/-- The value of a digit in a base. -/
def digit? (base : Nat) (c : Char) : Option Nat :=
  let n :=
    if c.isDigit then c.toNat - '0'.toNat
    else if 'a' ≤ c ∧ c ≤ 'f' then c.toNat - 'a'.toNat + 10
    else if 'A' ≤ c ∧ c ≤ 'F' then c.toNat - 'A'.toNat + 10
    else base
  if n < base then some n else none

/-- The number that some digits write in a base. -/
def digits? (base : Nat) (cs : List Char) : Option Nat :=
  if cs.isEmpty then none else cs.foldlM (fun n c => (n * base + ·) <$> digit? base c) 0

/-- A number without its sign. -/
def magnitude? (cs : List Char) : Option Nat :=
  match cs with
  | '0' :: 'x' :: cs => digits? 16 cs
  | '0' :: 'o' :: cs => digits? 8 cs
  | '0' :: 'b' :: cs => digits? 2 cs
  | ['0'] => some 0
  | '0' :: _ => none
  | cs => digits? 10 cs

/-- The number that a scalar stands for. -/
def int? (s : String) : Option Int :=
  match s.toList with
  | '-' :: cs => (fun n : Nat => -(n : Int)) <$> magnitude? cs
  | '+' :: cs => Int.ofNat <$> magnitude? cs
  | cs => Int.ofNat <$> magnitude? cs

end AccessAdmin.Wire.Plain
