import AccessAdmin.Http.Refusal
import AccessAdmin.Wire.Records

/-!
# Bodies of their own

The documents of requests and responses that are not records of the domain.
-/

namespace AccessAdmin.Http

open Wire

/-- A new password. -/
structure NewPassword where
  password : String
deriving DecidableEq, Repr

namespace NewPassword

/-- The fields of a new password. -/
def shape : Shape NewPassword := NewPassword.mk <$> .required "password" Decode.text

/-- The document of a new password. -/
def toJson (p : NewPassword) : Json := .obj [("password", .str p.password)]

end NewPassword

/-- The caller's old password with a new one. -/
structure PasswordChange where
  old : String
  new : String
deriving DecidableEq, Repr

namespace PasswordChange

/-- The fields of a change of password. -/
def shape : Shape PasswordChange :=
  PasswordChange.mk <$> .required "old_password" Decode.text <*> .required "new_password" Decode.text

/-- The document of a change of password. -/
def toJson (p : PasswordChange) : Json :=
  .obj [("old_password", .str p.old), ("new_password", .str p.new)]

end PasswordChange

/-- A question to the engine has the parts of a permission. -/
abbrev Question : Type := Policy.Permission

/-- The answer to a question to the engine. -/
structure Answer where
  allowed : Bool
deriving DecidableEq, Repr

namespace Answer

/-- The fields of an answer. -/
def shape : Shape Answer := Answer.mk <$> .required "allowed" Decode.bool

/-- The document of an answer. -/
def toJson (a : Answer) : Json := .obj [("allowed", .bool a.allowed)]

end Answer

/-- What the service says of itself. -/
structure SystemInfo where
  service : String := "portcullis-admin"
  apiVersion : String := "v1"
  storageBackend : String
  durableStorage : Bool
  enforce : Bool
deriving DecidableEq, Repr

namespace SystemInfo

/-- The fields of what the service says of itself. -/
def shape : Shape SystemInfo :=
  SystemInfo.mk <$> .required "service" Decode.text <*> .required "api_version" Decode.text
    <*> .required "storage_backend" Decode.text <*> .required "durable_storage" Decode.bool
    <*> .required "enforce" Decode.bool

/-- The document of what the service says of itself. -/
def toJson (i : SystemInfo) : Json :=
  .obj [("service", .str i.service), ("api_version", .str i.apiVersion),
    ("storage_backend", .str i.storageBackend), ("durable_storage", .bool i.durableStorage),
    ("enforce", .bool i.enforce)]

end SystemInfo

/-- How the service is. -/
structure Health where
  status : String := "ok"
deriving DecidableEq, Repr

namespace Health

/-- The fields of how the service is. -/
def shape : Shape Health := Health.mk <$> .required "status" Decode.text

/-- The document of how the service is. -/
def toJson (h : Health) : Json := .obj [("status", .str h.status)]

end Health

/-- An error as it stands in a document. -/
structure ErrorBody where
  code : String
  message : String
  requestId : Option String
deriving DecidableEq, Repr

namespace ErrorBody

/-- The fields of an error. -/
def shape : Shape ErrorBody :=
  ErrorBody.mk <$> .required "code" Decode.text <*> .required "message" Decode.text
    <*> .nullable "request_id" Decode.text

/-- The document of an error. -/
def toJson (e : ErrorBody) : Json :=
  .obj [("code", .str e.code), ("message", .str e.message), ("request_id", .orNull .str e.requestId)]

end ErrorBody

/-- The fields of a page of rows. -/
def pageShape {α : Type} (row : Decoder α) : Shape (Listing α) :=
  Listing.mk <$> .required "items" (Decode.list row) <*> .nullable "page" PageInfo.shape.decode

/-- The document of a page of rows. -/
def pageToJson {α : Type} (row : α → Json) (l : Listing α) : Json := l.toJson "items" row

end AccessAdmin.Http
