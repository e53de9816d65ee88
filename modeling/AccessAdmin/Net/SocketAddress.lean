import AccessAdmin.Text.Quoted
import AccessAdmin.Text.Separated

/-!
# Socket addresses

An address of the fourth or sixth internet protocol with a port. Addresses of the sixth are printed
with the longest run of zero groups left out, the first one of several, and with lower-case digits.

* `SocketAddress.ofText?`, `SocketAddress.toText`.
-/

namespace AccessAdmin.Net

/-- An address with a port. -/
inductive SocketAddress where
  /-- Four octets. -/
  | v4 (octets : List Nat) (port : Nat)
  /-- Eight groups of 16 bits, and the number of a scope. -/
  | v6 (groups : List Nat) (scope : Nat) (port : Nat)
deriving DecidableEq, Repr

namespace SocketAddress

/-! ## Reading -/

/-- The value of a digit in a base. -/
def digit? (base : Nat) (c : Char) : Option Nat :=
  let n :=
    if '0' ≤ c ∧ c ≤ '9' then c.toNat - '0'.toNat
    else if 'a' ≤ c ∧ c ≤ 'z' then c.toNat - 'a'.toNat + 10
    else if 'A' ≤ c ∧ c ≤ 'Z' then c.toNat - 'A'.toNat + 10
    else base
  if n < base then some n else none

/-- The number at the start of a text, with at most so many digits and below a bound. -/
def number (base most bound : Nat) (cs : List Char) : Option (Nat × List Char) :=
  let ds := cs.takeWhile fun c => (digit? base c).isSome
  let n := ds.foldl (fun n c => n * base + (digit? base c).getD 0) 0
  if ds.isEmpty || most < ds.length || bound ≤ n then none else some (n, cs.drop ds.length)

/-- A character that has to come next. -/
def mark (c : Char) : List Char → Option (List Char)
  | d :: cs => if d = c then some cs else none
  | [] => none

/-- An octet in decimal digits without leading zeros. -/
def octet (cs : List Char) : Option (Nat × List Char) :=
  match cs with
  | '0' :: c :: _ => if c.isDigit then none else number 10 3 256 cs
  | cs => number 10 3 256 cs

/-- Four octets with points between them. -/
def fourOctets (cs : List Char) : Option (List Nat × List Char) := do
  let (a, cs) ← octet cs
  let (b, cs) ← octet (← mark '.' cs)
  let (c, cs) ← octet (← mark '.' cs)
  let (d, cs) ← octet (← mark '.' cs)
  return ([a, b, c, d], cs)

/-- A part that stands alone at the start, and after a colon later on. -/
def afterColon {α : Type} (first : Bool) (read : List Char → Option (α × List Char))
    (cs : List Char) : Option (α × List Char) :=
  if first then read cs else do read (← mark ':' cs)

/-- At most so many groups with colons between them; the last two may be written as four octets,
which ends the groups and is told. -/
def groups : Nat → Bool → List Char → List Nat × Bool × List Char
  | 0, _, cs => ([], false, cs)
  | n + 1, first, cs =>
    match if n = 0 then none else afterColon first fourOctets cs with
    | some (os, cs) => ([os.getD 0 0 * 256 + os.getD 1 0, os.getD 2 0 * 256 + os.getD 3 0], true, cs)
    | none =>
      match afterColon first (number 16 4 65536) cs with
      | none => ([], false, cs)
      | some (g, rest) =>
        let (more, octets, rest) := groups n false rest
        (g :: more, octets, rest)

/-- Eight groups, a run of which may be left out between two colons. -/
def eightGroups (cs : List Char) : Option (List Nat × List Char) :=
  let (head, octets, rest) := groups 8 true cs
  if head.length = 8 then some (head, rest)
  else if octets then none
  else do
    let rest ← mark ':' (← mark ':' rest)
    let (tail, _, rest) := groups (7 - head.length) true rest
    return (head ++ List.replicate (8 - head.length - tail.length) 0 ++ tail, rest)

/-- The port at the end of a text. -/
def port (cs : List Char) : Option Nat := do
  match ← number 10 cs.length 65536 (← mark ':' cs) with
  | (n, []) => some n
  | _ => none

/-- Reads an address with a port. -/
def ofText? (text : String) : Option SocketAddress :=
  match text.toList with
  | '[' :: cs => do
    let (gs, cs) ← eightGroups cs
    let (scope, cs) ← match cs with
      | '%' :: cs => number 10 cs.length UInt32.size cs
      | cs => some (0, cs)
    return v6 gs scope (← port (← mark ']' cs))
  | cs => do
    let (os, cs) ← fourOctets cs
    return v4 os (← port cs)

/-! ## Printing -/

/-- Octets with points between them. -/
def octetsText (os : List Nat) : String := String.intercalate "." (os.map toString)

/-- A group in hexadecimal digits. -/
def groupText (g : Nat) : String := String.ofList (Text.hexDigits g)

/-- Groups with colons between them. -/
def groupsText (gs : List Nat) : String := String.intercalate ":" (gs.map groupText)

/-- How many zeros the groups begin with. -/
def zerosAt (gs : List Nat) (i : Nat) : Nat := ((gs.drop i).takeWhile (· == 0)).length

/-- Where the longest run of zeros begins, the first of several, and how long it is. -/
def longestRun (gs : List Nat) : Nat × Nat :=
  (List.range gs.length).foldl
    (fun best i => if best.2 < zerosAt gs i then (i, zerosAt gs i) else best) (0, 0)

/-- The text of eight groups. An address of the fourth protocol inside the sixth is shown with its
octets. -/
def addressText (gs : List Nat) : String :=
  match gs with
  | [0, 0, 0, 0, 0, 0xffff, a, b] =>
    "::ffff:" ++ octetsText [a / 256, a % 256, b / 256, b % 256]
  | gs =>
    let (start, length) := longestRun gs
    if 1 < length then groupsText (gs.take start) ++ "::" ++ groupsText (gs.drop (start + length))
    else groupsText gs

/-- The text of an address with its port. -/
def toText : SocketAddress → String
  | v4 os port => octetsText os ++ ":" ++ toString port
  | v6 gs scope port =>
    let scopeText := if scope = 0 then "" else "%" ++ toString scope
    "[" ++ addressText gs ++ scopeText ++ "]:" ++ toString port

end SocketAddress

end AccessAdmin.Net
