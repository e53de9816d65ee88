import AccessAdmin.Http.Endpoint
import AccessAdmin.Wire.Json

/-!
# The description of the interface

What the interface publishes of itself: for every path and method the group it belongs to and the
statuses it answers with, and the names of the documents.

* `Description.summary`: the description as a document.
-/

namespace AccessAdmin.Http

open Wire

/-- The statuses that an endpoint is described to answer with, in ascending order. -/
def Endpoint.statuses : Endpoint → List Nat
  | systemInfo | listMenus | menuTree | listRoles | selectRoles | listUsers | checkPolicy
  | listRules => [200]
  | systemHealth | reloadPolicy => [200, 500]
  | getMenu | getRole | getUser => [200, 404]
  | createMenu | createUser => [201, 400, 404]
  | createRole => [201, 400]
  | updateMenu | updateRole | updateUser => [200, 400, 404]
  | deleteMenu | changePassword => [204, 400, 404]
  | deleteRole | deleteUser | enableUser | disableUser => [204, 404]
  | currentUser | currentMenuTree => [200, 401, 403]
  | changeOwnPassword => [204, 400, 401]

namespace Description

/-- The title of the interface. -/
def title : String := "portcullis-admin"

/-- The names of the documents, sorted. -/
def documentNames : List String :=
  ["CurrentPasswordRequest", "CurrentUser", "ErrorResponse", "HealthStatus", "MembershipView",
    "Menu", "MenuAction", "MenuActionInput", "MenuInput", "MenuListResponse", "MenuResource",
    "MenuResourceInput", "MenuTree", "PageResult", "PasswordChangeRequest", "PolicyCheckRequest",
    "PolicyCheckResponse", "PolicyRuleView", "PolicyRulesResponse", "ProjectionSummary", "Role",
    "RoleInput", "RoleListResponse", "RoleMenu", "RoleMenuInput", "SystemInfo", "User", "UserInput",
    "UserListResponse", "UserRole", "UserStatus"]

/-- What is described of an endpoint. -/
def operation (e : Endpoint) : Json :=
  .obj [("tags", .texts [e.group]), ("responses", .texts (e.statuses.map toString))]

/-- The paths, each once. -/
def paths : List String := (Endpoint.all.map Endpoint.shownPath).eraseDups

/-- What is described of a path: its endpoints by their methods in lower case. -/
def pathItem (path : String) : Json :=
  .obj ((Endpoint.all.filter (·.shownPath == path)).map fun e =>
    (e.method.map Char.toLower, operation e))

/-- The description as a document. -/
def summary : Json :=
  .obj [("info", .obj [("title", .str title), ("version", .str Endpoint.version)]),
    ("paths", .obj (paths.map fun p => (p, pathItem p))),
    ("schemas", .texts documentNames)]

end Description

end AccessAdmin.Http
