import AccessAdmin.Http.Headers
import AccessAdmin.Http.Target
import AccessAdmin.Http.MediaType
import AccessAdmin.Wire.Reader
import AccessAdmin.Wire.Shape

/-!
# Requests and responses

A request has a method, a target, header fields and a body. A response has a status and, as far as
it carries one, a document.

* `Request.make?`: a request, unless its parts cannot form one.
* `Request.document`: the body, read as a document of a shape, or the status of the refusal.
-/

namespace AccessAdmin.Http

open Wire

/-- A response. -/
structure Response where
  status : Nat
  body : Option Json := none
deriving Repr, Inhabited

namespace Response

/-- A response with a document. -/
def json (status : Nat) (body : Json) : Response := ⟨status, some body⟩

/-- A response with a status alone. -/
def bare (status : Nat) : Response := ⟨status, none⟩

end Response

/-- A request. -/
structure Request where
  method : String
  target : Target
  headers : Headers := {}
  body : String := ""
deriving DecidableEq, Repr

namespace Request

/-- Whether a text is the name of a method. -/
def isMethod (s : String) : Bool := !s.isEmpty && s.toList.all MediaType.isToken

/-- A request of some parts, unless they cannot form one. -/
def make? (method target : String) (headers : Headers) (body : String) : Option Request :=
  if isMethod method && headers.isValid then
    (Target.ofText? target).map fun target => ⟨method, target, headers, body⟩
  else none

/-- Whether the body is announced as JSON. -/
def announcesJson (r : Request) : Bool := (r.headers.text? "content-type").any MediaType.isJson

variable {α : Type}

/-- The value that the body's document stands for, or the status of the refusal: the body is not
announced as JSON, is no JSON, or has another shape. -/
def document (r : Request) (read : Decoder α) : Except Nat α :=
  if !r.announcesJson then .error 415
  else
    match read (Json.read r.body) with
    | .ok a => .ok a
    | .error .malformed => .error 400
    | .error _ => .error 422

end Request

end AccessAdmin.Http
