import AccessAdmin.Crypto.Argon2
import AccessAdmin.Service.Users
import AccessAdmin.Text.Base64
import AccessAdmin.Text.Number
import AccessAdmin.Text.Separated
import AccessAdmin.Text.Utf8

/-!
# Stored password hashes

A hash is stored as a text of fields between dollar signs: the algorithm, its version, its
parameters, the salt and the tag. Everything that is needed to check a password stands in the text.

* `PasswordHash.render`, `PasswordHash.ofText?`: a hash as text, and back.
* `PasswordHash.scheme`: hashing with fresh salts, and checking.
-/

namespace AccessAdmin.Crypto

open Text

/-- A stored hash. -/
structure PasswordHash where
  params : Argon2.Params
  salt : List UInt8
  tag : List UInt8
deriving DecidableEq, Repr

namespace PasswordHash

/-! ## Writing -/

/-- The name of a variant. -/
def variantName : Argon2.Variant → String
  | .d => "argon2d"
  | .i => "argon2i"
  | .id => "argon2id"

/-- The text of a hash. -/
def render (h : PasswordHash) : String :=
  let p := h.params
  let extra := if p.extra.isEmpty then "" else ",data=" ++ Base64.encode p.extra
  Text.join '$'
    ["", variantName p.variant, s!"v={p.version.code}",
      s!"m={p.memory},t={p.passes},p={p.lanes}" ++ extra, Base64.encode h.salt, Base64.encode h.tag]

/-! ## Reading -/

/-- The variant of a name. -/
def variant? (name : String) : Option Argon2.Variant :=
  [Argon2.Variant.d, .i, .id].find? fun v => variantName v == name

/-- The version of a number. -/
def version? (n : Nat) : Option Argon2.Version :=
  [Argon2.Version.overwriting, .adding].find? fun v => v.code == n

/-- Whether a character may stand in a value. -/
def isValueChar (c : Char) : Bool := c.isAlphanum || "/+.-".toList.contains c

/-- Whether a text is a value: not too long, and of the characters for values. -/
def isValue (s : String) : Bool := s.length ≤ 64 && s.toList.all isValueChar

/-- A number without sign and leading zeros that fits 32 bits. -/
def decimal? (s : String) : Option Nat := do
  guard (isValue s)
  let n ← Number.digits? s.toList
  guard (n < UInt32.size ∧ (s = "0" ∨ s.toList.head? ≠ some '0'))
  return n

/-- The octets of a value, of which there may be so many. -/
def octets? (most : Nat) (s : String) : Option (List UInt8) := do
  let bs ← Base64.decode? s
  guard (bs.length ≤ most)
  return bs

/-- Sets one parameter. -/
def setParam (p : Argon2.Params) (text : String) : Option Argon2.Params := do
  match Text.split '=' text with
  | [name, value] =>
    guard (isValue value)
    match name with
    | "m" => return { p with memory := ← decimal? value }
    | "t" => return { p with passes := ← decimal? value }
    | "p" => return { p with lanes := ← decimal? value }
    | "keyid" => do
      let _ ← octets? 8 value
      return p
    | "data" => return { p with extra := ← octets? 32 value }
    | _ => none
  | _ => none

/-- The most octets of the text of all parameters. -/
def maxParamsLength : Nat := 127

/-- Sets the parameters that a field lists between commas. -/
def setParams (p : Argon2.Params) (field : String) : Option Argon2.Params := do
  guard (field.utf8ByteSize ≤ maxParamsLength)
  (Text.split ',' field).foldlM setParam p

/-- Reads the field with the version, if there is one. -/
def readVersion (p : Argon2.Params) : List String → Option (Argon2.Params × List String)
  | [] => some (p, [])
  | field :: rest =>
    match field.toList with
    | 'v' :: '=' :: number =>
      if number.contains ',' then some (p, field :: rest)
      else do
        let version ← version? (← decimal? (String.ofList number))
        return ({ p with version := version }, rest)
    | _ => some (p, field :: rest)

/-- Reads the field with the parameters, if there is one. -/
def readParams (p : Argon2.Params) : List String → Option (Argon2.Params × List String)
  | [] => some (p, [])
  | field :: rest =>
    if field.toList.contains '=' then (·, rest) <$> setParams p field else some (p, field :: rest)

/-- Whether the parameters, the salt and the tag have sizes that the algorithm takes. -/
def isUsable (h : PasswordHash) : Bool :=
  let p := h.params
  8 ≤ p.memory && 8 * p.lanes ≤ p.memory && 1 ≤ p.passes && 1 ≤ p.lanes && p.lanes < 0x1000000 &&
    8 ≤ h.salt.length && 10 ≤ h.tag.length && h.tag.length ≤ 64

/-- Reads the text of a hash. -/
def ofText? (text : String) : Option PasswordHash := do
  match Text.split '$' text with
  | "" :: name :: fields =>
    let (p, fields) ← readVersion { variant := ← variant? name } fields
    match ← readParams p fields with
    | (p, [salt, tag]) =>
      guard (4 ≤ salt.length ∧ isValue salt)
      let salt ← Base64.decode? salt
      let tag ← Base64.decode? tag
      let h : PasswordHash := ⟨{ p with tagLength := tag.length }, salt, tag⟩
      guard h.isUsable
      return h
    | _ => none
  | _ => none

/-! ## Hashing and checking -/

/-- The hash of a password. -/
def make (p : Argon2.Params) (salt : List UInt8) (password : String) : PasswordHash :=
  ⟨p, salt, Argon2.tag p (Utf8.encode password) salt⟩

/-- Whether a password is the one of a stored hash; a text that is no hash has none. -/
def verify (text password : String) : Bool :=
  match ofText? text with
  | none => false
  | some h => Argon2.tag h.params (Utf8.encode password) h.salt == h.tag

/-- Keeping passwords under some parameters. -/
def scheme (p : Argon2.Params := {}) : PasswordScheme where
  hash salt password := (make p salt.toList password).render
  verify := verify

end PasswordHash

end AccessAdmin.Crypto
