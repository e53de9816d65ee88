import AccessAdmin.Text.Separated
import AccessAdmin.Text.Utf8

/-!
# Request targets

The target of a request is a path with an optional query, an authority alone, or a whole address.
Each part admits its own octets; a fragment is cut off.

* `Target.ofText?`: reads a target, or fails where the text cannot be one.
-/

namespace AccessAdmin.Http

/-- The target of a request. An authority alone has the empty path. -/
structure Target where
  path : String
  query : Option String := none
deriving DecidableEq, Repr

namespace Target

/-- The most octets that a target may have. -/
def maxLength : Nat := 65534

/-- Whether a character may stand in a path. -/
def inPath (c : Char) : Bool :=
  let n := c.toNat
  n == 0x21 || (0x24 ≤ n && n ≤ 0x3B) || n == 0x3D || (0x40 ≤ n && n ≤ 0x5F) ||
    (0x61 ≤ n && n ≤ 0x7E) || 0x7F ≤ n || c == '"'

/-- Whether a character may stand in a query. -/
def inQuery (c : Char) : Bool :=
  let n := c.toNat
  n == 0x21 || (0x24 ≤ n && n ≤ 0x3B) || n == 0x3D || 0x3F ≤ n

/-- Reads a path with its query. -/
def ofPathAndQuery? (cs : List Char) : Option Target :=
  let cs := cs.takeWhile (· != '#')
  let path := cs.takeWhile (· != '?')
  if !path.all inPath then none
  else
    match cs.drop path.length with
    | [] => some { path := String.ofList path }
    | _ :: query =>
      if query.all inQuery then some ⟨String.ofList path, some (String.ofList query)⟩ else none

/-! ## Authorities -/

/-- Whether a character may stand in an authority besides colons, brackets, `@` and `%`. -/
def inAuthority (c : Char) : Bool :=
  c.isAlphanum || "!$&'()*+,-.;=_~".toList.contains c

/-- What an authority's characters so far have shown. -/
structure Scan where
  colons : Nat := 0
  opened : Bool := false
  closed : Bool := false
  escaped : Bool := false
  /-- Whether the last character was an `@`. -/
  afterAt : Bool := false

/-- The most colons that a bracketed address may have. -/
def maxColons : Nat := 8

/-- Takes one more character of an authority. -/
def Scan.take? (s : Scan) (c : Char) : Option Scan :=
  let s := { s with afterAt := c == '@' }
  match c with
  | ':' => if maxColons ≤ s.colons then none else some { s with colons := s.colons + 1 }
  | '[' => if s.escaped || s.opened then none else some { s with opened := true }
  | ']' =>
    if !s.opened || s.closed then none
    else some { s with closed := true, colons := 0, escaped := false }
  | '@' => some { s with colons := 0, escaped := false }
  | '%' => some { s with escaped := true }
  | c => if inAuthority c then some s else none

/-- Whether some characters are an authority: at most one colon before a port, brackets in a pair,
escapes only before an `@`, and something after that. -/
def isAuthority (cs : List Char) : Bool :=
  match cs.foldlM Scan.take? {} with
  | none => false
  | some s => s.opened == s.closed && s.colons ≤ 1 && !s.afterAt && !s.escaped

/-- Whether a character may stand in a scheme. -/
def inScheme (c : Char) : Bool := c.isAlphanum || c == '+' || c == '-' || c == '.'

/-- The most characters that a scheme may have. -/
def maxSchemeLength : Nat := 64

/-- Reads an authority, or a whole address. -/
def ofAddress? (cs : List Char) : Option Target :=
  let scheme := cs.takeWhile inScheme
  match cs.drop scheme.length with
  | ':' :: '/' :: '/' :: rest =>
    let authority := rest.takeWhile fun c => c != '/' && c != '?' && c != '#'
    if maxSchemeLength < scheme.length || authority.isEmpty || !isAuthority authority then none
    else do
      let target ← ofPathAndQuery? (rest.drop authority.length)
      return if target.path.isEmpty then { target with path := "/" } else target
  | _ => if isAuthority cs then some ⟨"", none⟩ else none

/-- Reads a target. -/
def ofText? (text : String) : Option Target :=
  if maxLength < (Text.Utf8.encode text).length then none
  else
    match text.toList with
    | [] => none
    | '/' :: cs => ofPathAndQuery? ('/' :: cs)
    | ['*'] => some ⟨"*", none⟩
    | cs => ofAddress? cs

end Target

end AccessAdmin.Http
