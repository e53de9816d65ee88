import AccessAdmin.Http.Message
import AccessAdmin.Service.Error

/-!
# Refusals

A refused request is answered with a status, a stable code and a message. What failed inside a
store or the engine is not told: their errors all have the same message.

* `Refusal.ofService`: what a caller is told of a service error.
-/

namespace AccessAdmin.Http

open Wire

/-- What a refused caller is told. -/
structure Refusal where
  status : Nat
  code : String
  message : String
deriving DecidableEq, Repr

namespace Refusal

/-- There is no such thing. -/
def notFound (message : String) : Refusal := ⟨404, "not_found", message⟩

/-- The input is not acceptable. -/
def invalid (message : String) : Refusal := ⟨400, "validation_error", message⟩

/-- The caller is not known. -/
def unauthorized (message : String) : Refusal := ⟨401, "unauthorized", message⟩

/-- The caller may not do this. -/
def forbidden (message : String) : Refusal := ⟨403, "forbidden", message⟩

/-- The work did not end in time. -/
def unavailable (message : String) : Refusal := ⟨503, "unavailable", message⟩

/-- Something inside failed. -/
def internal (message : String) : Refusal := ⟨500, "internal", message⟩

/-- The change is stored, but the rules may lag behind it. -/
def stale : Refusal :=
  ⟨500, "policy_stale", "change saved but authorization policy may be stale"⟩

/-- A request without a caller. -/
def noIdentity : Refusal := unauthorized "missing caller identity"

/-- What a caller is told of a service error. -/
def ofService : ServiceError → Refusal
  | .notFound text => notFound text
  | .validation text => invalid text
  | .forbidden text => forbidden text
  | .cancelled => unavailable "operation timed out"
  | .storage _ => internal "storage failure"
  | .policy _ => stale

/-- The document of a refusal. -/
def toJson (r : Refusal) : Json :=
  .obj [("code", .str r.code), ("message", .str r.message), ("request_id", .null)]

/-- The response of a refusal. -/
def response (r : Refusal) : Response := .json r.status r.toJson

end Refusal

end AccessAdmin.Http
