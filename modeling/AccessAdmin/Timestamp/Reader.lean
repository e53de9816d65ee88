import AccessAdmin.Text.Blank
import AccessAdmin.Timestamp

/-!
# Reading points in time

A date, a `T` or a space, a time of day, and `Z`, `UTC` or an offset. Fields may have fewer digits
than usual, except the year without a sign, and blanks may stand before the fields, the marks
between them and the offset.
-/

namespace AccessAdmin.Timestamp

/-- Drops blanks at the start. -/
def skipBlank (cs : List Char) : List Char := cs.dropWhile Text.isBlank

/-- The number that some digits write. -/
def ofDigits (ds : List Char) : Nat :=
  ds.foldl (fun n d => n * 10 + (d.toNat - '0'.toNat)) 0

/-- At least one and at most `width` digits, after blanks. -/
def readField (width : Nat) (cs : List Char) : Option (Nat × List Char) :=
  let cs := skipBlank cs
  let ds := (cs.takeWhile Char.isDigit).take width
  if ds.isEmpty then none else some (ofDigits ds, cs.drop ds.length)

/-- The year: up to four digits, or a sign and any number of them. -/
def readYear (cs : List Char) : Option (Int × List Char) :=
  match skipBlank cs with
  | '+' :: cs => signed cs 1
  | '-' :: cs => signed cs (-1)
  | cs => (readField 4 cs).map fun (n, rest) => ((n : Int), rest)
where
  signed (cs : List Char) (sign : Int) : Option (Int × List Char) :=
    let ds := cs.takeWhile Char.isDigit
    if ds.isEmpty then none else some (sign * ofDigits ds, cs.drop ds.length)

/-- A mark between fields, after blanks. -/
def readMark (mark : Char) (cs : List Char) : Option (List Char) :=
  match skipBlank cs with
  | c :: cs => if c = mark then some cs else none
  | [] => none

/-- The fraction of a second in nanoseconds; digits after the ninth are passed over. -/
def readFraction : List Char → Option (Nat × List Char)
  | '.' :: cs =>
    let ds := cs.takeWhile Char.isDigit
    if ds.isEmpty then none
    else
      let kept := (ds.take 9).rightpad 9 '0'
      some (ofDigits kept, cs.drop ds.length)
  | cs => some (0, cs)

/-- Exactly two digits. -/
def readPair : List Char → Option (Nat × List Char)
  | a :: b :: cs => if a.isDigit && b.isDigit then some (ofDigits [a, b], cs) else none
  | _ => none

/-- The offset from UTC in seconds. -/
def readOffset (cs : List Char) : Option (Int × List Char) :=
  match cs with
  | 'Z' :: cs => some (0, cs)
  | 'z' :: cs => some (0, cs)
  | sign :: cs =>
    if sign = '+' ∨ sign = '-' ∨ sign = '\u2212' then do
      let (hours, cs) ← readPair cs
      let (minutes, cs) ← readPair (cs.dropWhile fun c => c == ':' || Text.isBlank c)
      guard (minutes < 60)
      let seconds : Int := hours * 3600 + minutes * 60
      return (if sign = '+' then seconds else -seconds, cs)
    else
      match sign :: cs with
      | u :: t :: c :: rest =>
        if [u, t, c].map Char.toUpper = ['U', 'T', 'C'] then some (0, rest) else none
      | _ => none
  | [] => none

/-- Reads a point in time. A 60th second is the leap second of its minute. -/
def ofText? (text : String) : Option Timestamp := do
  let (year, cs) ← readYear text.toList
  let (month, cs) ← readField 2 (← readMark '-' cs)
  let (day, cs) ← readField 2 (← readMark '-' cs)
  let cs ← match cs with
    | c :: cs => if c = 'T' ∨ c = 't' ∨ c = ' ' then some cs else none
    | [] => none
  let (hour, cs) ← readField 2 cs
  let (minute, cs) ← readField 2 (← readMark ':' cs)
  let (second, cs) ← readField 2 (← readMark ':' cs)
  let (nanos, cs) ← readFraction cs
  let (offset, cs) ← readOffset (skipBlank cs)
  guard (skipBlank cs).isEmpty
  guard (yearRange.1 ≤ year ∧ year ≤ yearRange.2)
  guard (1 ≤ day ∧ day ≤ daysInMonth year month)
  guard (hour < 24 ∧ minute < 60 ∧ second ≤ 60)
  guard (-86400 < offset ∧ offset < 86400)
  let seconds : Int := daysOfDate year month day * 86400 + hour * 3600 + minute * 60 + min second 59
  return ⟨seconds - offset, if second = 60 then nanos + 1000000000 else nanos⟩

end AccessAdmin.Timestamp
