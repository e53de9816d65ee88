/-!
# Media types

Whether a content type announces JSON: `application/json`, or an application type whose last suffix
is `+json`, with any well-formed parameters.
-/

namespace AccessAdmin.Http.MediaType

/-- Whether a character may stand in a type, a parameter's name, or its unquoted value. -/
def isToken (c : Char) : Bool :=
  c.isAlphanum || "!#$%&'*+-.^_`|~".toList.contains c

/-- Whether a character may stand in a quoted value. -/
def isQuotable (c : Char) : Bool := 31 < c.toNat && c.toNat != 127

/-- The parts of a type's name before and after its last `+`. A `+` at the start belongs to the
name. -/
def nameAndSuffix (subtype : List Char) : List Char × Option (List Char) :=
  let rest := subtype.drop 1
  if rest.contains '+' then
    let suffix := (rest.reverse.takeWhile (· != '+')).reverse
    (subtype.take (subtype.length - suffix.length - 1), some suffix)
  else (subtype, none)

/-- What follows a quoted value, after its closing quote and blanks: nothing, or what stands after
the next semicolon. The first character of a value is never its closing quote. -/
def afterQuoted (cs : List Char) : Option (List Char) :=
  match cs with
  | [] => none
  | first :: cs =>
    let value := cs.takeWhile fun c => c != '"'
    if !(first :: value).all isQuotable then none
    else
      match cs.drop value.length with
      | [] => none
      | _ :: rest =>
        match rest.dropWhile (· == ' ') with
        | [] => some []
        | ';' :: rest => some rest
        | _ => none

/-- What follows an unquoted value: nothing, or what stands after the next semicolon. -/
def afterPlain (cs : List Char) : Option (List Char) :=
  let value := cs.takeWhile isToken
  match cs.drop value.length with
  | [] => some []
  | ';' :: rest => if value.isEmpty then none else some rest
  | _ => none

/-- Whether some characters are parameters. Every step takes at least one character. -/
def areParameters : Nat → List Char → Bool
  | 0, _ => false
  | _ + 1, [] => true
  | steps + 1, ' ' :: cs => areParameters steps cs
  | steps + 1, cs =>
    let name := cs.takeWhile isToken
    match cs.drop name.length with
    | '=' :: value =>
      let rest := match value with
        | '"' :: cs => afterQuoted cs
        | cs => afterPlain cs
      !name.isEmpty && rest.any (areParameters steps)
    | _ => false

/-- Characters in lower case. -/
def lower (cs : List Char) : List Char := cs.map Char.toLower

/-- The content type of JSON. -/
def json : String := "application/json"

/-- Whether a content type announces JSON. -/
def isJson (text : String) : Bool :=
  let cs := text.toList
  let type := cs.takeWhile isToken
  match cs.drop type.length with
  | '/' :: rest =>
    let subtype := rest.takeWhile isToken
    let parameters := match rest.drop subtype.length with
      | [] => true
      | ';' :: params => areParameters (params.length + 1) params
      | _ => false
    let (name, suffix) := nameAndSuffix subtype
    lower type == "application".toList && !subtype.isEmpty && parameters &&
      (lower name == "json".toList || suffix.any (lower · == "json".toList))
  | _ => false

end AccessAdmin.Http.MediaType
