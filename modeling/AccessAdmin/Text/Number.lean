/-!
# Decimal numbers in text

A number is written with ASCII digits after an optional sign; leading zeros are allowed, anything
else is not. A minus sign is taken only where negative numbers are.

* `natUpTo?`: a number without minus sign up to a bound.
* `intBetween?`: a number between two bounds.
-/

namespace AccessAdmin.Text.Number

/-- The number that some digits write. -/
def ofDigits (ds : List Char) : Nat :=
  ds.foldl (fun n d => n * 10 + (d.toNat - '0'.toNat)) 0

/-- At least one digit and nothing else. -/
def digits? (cs : List Char) : Option Nat :=
  if !cs.isEmpty && cs.all Char.isDigit then some (ofDigits cs) else none

/-- A number up to a bound. -/
def natUpTo? (high : Nat) (s : String) : Option Nat := do
  let n ← match s.toList with
    | '+' :: cs => digits? cs
    | cs => digits? cs
  if n ≤ high then some n else none

/-- A number between two bounds. -/
def intBetween? (low high : Int) (s : String) : Option Int := do
  let n ← match s.toList with
    | '+' :: cs => Int.ofNat <$> digits? cs
    | '-' :: cs => (fun n : Nat => -(n : Int)) <$> digits? cs
    | cs => Int.ofNat <$> digits? cs
  if low ≤ n ∧ n ≤ high then some n else none

/-- An unsigned number of 32 bits. -/
def uint32? (s : String) : Option UInt32 := UInt32.ofNat <$> natUpTo? (UInt32.size - 1) s

/-- An unsigned number of 64 bits. -/
def uint64? (s : String) : Option Nat := natUpTo? (UInt64.size - 1) s

/-- A signed number of 64 bits. -/
def int64? (s : String) : Option Int64 :=
  Int64.ofInt <$> intBetween? Int64.minValue.toInt Int64.maxValue.toInt s

/-- A truth value. -/
def bool? (s : String) : Option Bool :=
  if s = "true" then some true else if s = "false" then some false else none

end AccessAdmin.Text.Number
