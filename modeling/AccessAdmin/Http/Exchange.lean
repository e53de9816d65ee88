import AccessAdmin.Http.Message
import AccessAdmin.Wire.Lookup
import AccessAdmin.Wire.Printer

/-!
# Requests and responses as documents

A request is written as an object with its method, its target, the calling user, and a body: either
as it is, or as a document, which is then announced as JSON.

* `Request.ofDocument?`, `Response.toJson`.
-/

namespace AccessAdmin.Http

open Wire

namespace Request

/-- The name of the header that announces a body. -/
def contentTypeName : String := "content-type"

/-- The header fields of a request. -/
def headersOf (j : Json) : Headers :=
  let field (name : String) (value : Option String) : List (String × List UInt8) :=
    (value.map fun v => (name, Text.Utf8.encode v)).toList
  let announced := if j.has "json" && !j.has "raw" then some MediaType.json else none
  ⟨field Headers.identityName (j.text? "user") ++
    field contentTypeName (j.text? "content_type" <|> announced)⟩

/-- The body of a request. -/
def bodyOf (j : Json) : String :=
  match j.text? "raw" with
  | some raw => raw
  | none => if j.has "json" then (j.part "json").render else ""

/-- Reads a request, unless its parts cannot form one. -/
def ofDocument? (j : Json) : Option Request :=
  make? ((j.text? "method").getD "GET") (j.text "uri") (headersOf j) (bodyOf j)

end Request

namespace Response

/-- The document of a response. -/
def toJson (r : Response) : Json :=
  .obj [("status", .int r.status), ("body", .orNull id r.body)]

/-- What is sent of a response: a request for the head of an answer gets no body, whoever
answers. -/
def sent (r : Response) (method : String) : Response :=
  if method = "HEAD" then .bare r.status else r

end Response

end AccessAdmin.Http
