import AccessAdmin.Code
import AccessAdmin.Menu.Basic
import AccessAdmin.Paging
import AccessAdmin.Role
import AccessAdmin.Text.Form
import AccessAdmin.Text.Number
import AccessAdmin.User
import AccessAdmin.Wire.Shape

/-!
# Queries

The query of a request target is a list of names with values, in form encoding. It is read like an
object whose fields are all texts: a repeated name and a value of the wrong form are faults, an
unknown name is passed over.

* `Query.document`: the object that a query writes.
* `MenuQuery.shape`, `RoleQuery.shape`, `UserQuery.shape`: what listings may be asked for.
-/

namespace AccessAdmin.Http

open Wire

namespace Query

/-- The object that a query writes. -/
def document (text : String) : Json :=
  .obj ((Text.Form.pairs text).map fun p => (p.1, .str p.2))

variable {α : Type}

/-- A part of a query that may be missing. -/
def part (name : String) (read : Decoder α) : Shape (Option α) :=
  .optional name (fun j => some <$> read j) none

/-- A truth value, false where it is missing. -/
def flag (name : String) : Shape Bool := .optional name (Decode.parsed Text.Number.bool?) false

end Query

/-- The fields of the paging parameters. -/
def pageQueryShape : Shape PageQuery :=
  PageQuery.mk <$> Query.part "current" (Decode.parsed Text.Number.uint32?)
    <*> Query.part "pageSize" (Decode.parsed Text.Number.int64?)

/-- What a listing of menus may be asked for. -/
structure MenuQuery where
  likeName : Option String := none
  parentId : Option String := none
  pathStart : Option String := none
  hidden : Option Bool := none
  /-- Whether the actions and resources are wanted. -/
  children : Bool := false
deriving DecidableEq, Repr

namespace MenuQuery

/-- The fields of the query. -/
def shape : Shape MenuQuery :=
  MenuQuery.mk <$> Query.part "likeName" Decode.text <*> Query.part "parentId" Decode.text
    <*> Query.part "prefixParentPath" Decode.text
    <*> Query.part "hidden" (Decode.parsed Text.Number.bool?) <*> Query.flag "includeChildren"

/-- The menus that the query admits. -/
def filter (q : MenuQuery) : MenuFilter :=
  { likeName := q.likeName
    parentId := q.parentId
    pathStart := q.pathStart.map AncestorPath.ofStorage
    hidden := q.hidden }

/-- What is loaded beside the menus. -/
def options (q : MenuQuery) (page : PageQuery) : ListingOptions :=
  { actions := q.children, resources := q.children, pagination := page.pagination }

end MenuQuery

/-- What a listing of roles may be asked for. -/
structure RoleQuery where
  name : Option String := none
  likeName : Option String := none
  userId : Option String := none
  /-- Whether the grants are wanted. -/
  menus : Bool := false
deriving DecidableEq, Repr

namespace RoleQuery

/-- The fields of the query. -/
def shape : Shape RoleQuery :=
  RoleQuery.mk <$> Query.part "name" Decode.text <*> Query.part "likeName" Decode.text
    <*> Query.part "userId" Decode.text <*> Query.flag "includeMenus"

/-- The roles that the query admits. -/
def filter (q : RoleQuery) : RoleFilter :=
  { name := q.name, likeName := q.likeName, userId := q.userId }

/-- What is loaded beside the roles. -/
def options (q : RoleQuery) (page : PageQuery) : ListingOptions :=
  { grants := q.menus, pagination := page.pagination }

end RoleQuery

/-- What a listing of users may be asked for. -/
structure UserQuery where
  username : Option String := none
  likeUsername : Option String := none
  likeRealName : Option String := none
  status : Option UserStatus := none
  /-- Role ids with commas between them. -/
  roleIds : Option String := none
  /-- Whether the assignments are wanted. -/
  roles : Bool := false
deriving DecidableEq, Repr

namespace UserQuery

/-- The fields of the query. -/
def shape : Shape UserQuery :=
  UserQuery.mk <$> Query.part "username" Decode.text <*> Query.part "likeUsername" Decode.text
    <*> Query.part "likeRealName" Decode.text
    <*> Query.part "status" (Decode.variant UserStatus.ofName? ["enabled", "disabled"])
    <*> Query.part "roleIds" Decode.text <*> Query.flag "includeRoles"

/-- The users that the query admits. -/
def filter (q : UserQuery) : UserFilter :=
  { username := q.username
    likeUsername := q.likeUsername
    likeRealName := q.likeRealName
    status := q.status
    roleIds := q.roleIds.map Code.splitList }

/-- What is loaded beside the users. -/
def options (q : UserQuery) (page : PageQuery) : ListingOptions :=
  { roles := q.roles, pagination := page.pagination }

end UserQuery

end AccessAdmin.Http
