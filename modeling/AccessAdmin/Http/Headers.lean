import AccessAdmin.Text.Blank

/-!
# Header fields

The header fields of a request in their order. A value is a list of octets and cannot hold
controls other than the tab. A value reads as a text only if all its octets are printed ASCII,
blanks or tabs.
-/

namespace AccessAdmin.Http

/-- The header fields of a request. -/
structure Headers where
  fields : List (String × List UInt8) := []
deriving DecidableEq, Repr

namespace Headers

/-- Whether an octet may stand in a value. -/
def isValueByte (b : UInt8) : Bool := (32 ≤ b.toNat && b.toNat != 127) || b.toNat == 9

/-- Whether an octet reads as a character. -/
def isReadable (b : UInt8) : Bool := (32 ≤ b.toNat && b.toNat < 127) || b.toNat == 9

/-- Whether every value can be sent. -/
def isValid (h : Headers) : Bool := h.fields.all fun f => f.2.all isValueByte

/-- The first value under a name, in whatever case it is written. -/
def get? (h : Headers) (name : String) : Option (List UInt8) :=
  (h.fields.find? fun f => f.1.map Char.toLower == name).map Prod.snd

/-- The first value under a name as a text. -/
def text? (h : Headers) (name : String) : Option String :=
  (h.get? name).bind fun bs =>
    if bs.all isReadable then some (String.ofList (bs.map fun b => Char.ofNat b.toNat)) else none

/-- The name of the header that carries the calling user. -/
def identityName : String := "x-portcullis-user"

/-- The calling user, as far as the header names one. -/
def identity (h : Headers) : Option String :=
  ((h.text? identityName).map Text.trim).filter fun user => !user.isEmpty

end Headers

end AccessAdmin.Http
