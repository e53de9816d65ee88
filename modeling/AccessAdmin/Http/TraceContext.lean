import AccessAdmin.Http.Headers
import AccessAdmin.Text.Quoted
import AccessAdmin.Text.Search
import AccessAdmin.Text.Separated

/-!
# Trace contexts

A request may say of which trace and span it is a part. The header has a version, the two ids and
flags, in hexadecimal numbers between dashes; a second header lists what each tracing system adds.

* `TraceContext.ofHeaders?`: the trace context of a request, if it has a valid one.
-/

namespace AccessAdmin.Http

/-- The trace and the span that a request belongs to. -/
structure TraceContext where
  traceId : Nat
  spanId : Nat
  sampled : Bool
  /-- What tracing systems add: a value for each name. -/
  state : List (String × String)
deriving DecidableEq, Repr

namespace TraceContext

/-- The value of a hexadecimal digit. -/
def hexValue? (c : Char) : Option Nat :=
  if '0' ≤ c ∧ c ≤ '9' then some (c.toNat - '0'.toNat)
  else if 'a' ≤ c ∧ c ≤ 'f' then some (c.toNat - 'a'.toNat + 10)
  else if 'A' ≤ c ∧ c ≤ 'F' then some (c.toNat - 'A'.toNat + 10)
  else none

/-- A hexadecimal number of at most so many bits; a plus sign may stand before it. -/
def hexNumber? (bits : Nat) (cs : List Char) : Option Nat := do
  let ds := match cs with
    | '+' :: rest => rest
    | cs => cs
  guard !ds.isEmpty
  let n ← ds.foldlM (fun n c => (n * 16 + ·) <$> hexValue? c) 0
  guard (n < Nat.pow 2 bits)
  return n

/-- The pieces between separators; an empty piece at the end is dropped. -/
def pieces (sep : Char) (cs : List Char) : List (List Char) :=
  let all := Text.splitOn sep cs
  if all.getLast? = some [] then all.dropLast else all

/-- Whether a character may stand in the name of a tracing system. -/
def inName (c : Char) : Bool := c.isLower || c.isDigit || "_-*/@".toList.contains c

/-- The most characters of a tracing system's name, and of its value. -/
def maxLength : Nat := 256

/-- Whether some characters name a tracing system: a letter or digit first, and after an `@`, which
has at most 13 characters after it, once more. -/
def isName (cs : List Char) : Bool :=
  let begins (cs : List Char) : Bool := cs.head?.all fun c => c.isLower || c.isDigit
  let vendor := (cs.dropWhile (· != '@')).drop 1
  cs.length ≤ maxLength && cs.all inName && begins cs && begins vendor && vendor.length ≤ 13 &&
    !vendor.contains '@'

/-- What one tracing system adds. -/
def entry? (cs : List Char) : Option (String × String) :=
  let name := cs.takeWhile (· != '=')
  match cs.drop name.length with
  | [] => none
  | rest =>
    let value := rest.dropWhile (· == '=')
    if isName name && value.length ≤ maxLength && !value.contains '=' then
      some (String.ofList name, String.ofList value)
    else none

/-- What the tracing systems add; a list with a fault counts as empty. -/
def stateOf (h : Headers) : List (String × String) :=
  match h.text? "tracestate" with
  | none => []
  | some text => ((pieces ',' text.toList).mapM entry?).getD []

/-- The state as it is written in the header. -/
def stateText (t : TraceContext) : String :=
  Text.join ',' (t.state.map fun e => e.1 ++ "=" ++ e.2)

/-- The number of an id in a header, which is not zero and has no capital letters. -/
def id? (bits : Nat) (cs : List Char) : Option Nat := do
  guard !(cs.any Char.isUpper)
  let n ← hexNumber? bits cs
  guard (n ≠ 0)
  return n

/-- The greatest version of the header that is read. -/
def maxVersion : Nat := 254

/-- The trace context of a request. The first version of the header has exactly four parts and knows
two flags, of which the lower one is kept. -/
def ofHeaders? (h : Headers) : Option TraceContext := do
  let parts := pieces '-' (Text.trim ((h.text? "traceparent").getD "")).toList
  match parts with
  | version :: trace :: span :: flags :: more =>
    let version ← hexNumber? 8 version
    guard (version ≤ maxVersion ∧ (version = 0 → more.isEmpty))
    let traceId ← id? 128 trace
    let spanId ← id? 64 span
    let flags ← hexNumber? 8 flags
    guard (version = 0 → flags ≤ 2)
    return ⟨traceId, spanId, flags % 2 == 1, stateOf h⟩
  | _ => none

/-- A number in hexadecimal digits of a set width. -/
def hexText (width n : Nat) : String :=
  let ds := Text.hexDigits n
  String.ofList (List.replicate (width - ds.length) '0' ++ ds)

end TraceContext

end AccessAdmin.Http
