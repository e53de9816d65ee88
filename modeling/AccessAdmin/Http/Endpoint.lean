import AccessAdmin.Text.Separated

/-!
# Endpoints

What the interface offers: each endpoint has a method, a path with places for ids, and the statuses
it answers with. A path is looked up segment by segment; a place for an id takes any segment that
is not empty.

* `Endpoint.route`: what becomes of a request by its path and method.
-/

namespace AccessAdmin.Http

/-- An operation that the interface offers. -/
inductive Endpoint where
  | systemInfo
  | systemHealth
  | listMenus
  | createMenu
  | menuTree
  | getMenu
  | updateMenu
  | deleteMenu
  | listRoles
  | createRole
  | selectRoles
  | getRole
  | updateRole
  | deleteRole
  | listUsers
  | createUser
  | getUser
  | updateUser
  | deleteUser
  | enableUser
  | disableUser
  | changePassword
  | reloadPolicy
  | checkPolicy
  | listRules
  | currentUser
  | currentMenuTree
  | changeOwnPassword
deriving DecidableEq, Repr

/-- A segment of an endpoint's path. -/
inductive Segment where
  | fixed (text : String)
  | id
deriving DecidableEq, Repr

/-- How a segment is shown in a description of the path. -/
def Segment.shown : Segment → String
  | fixed text => text
  | id => "\x7bid\x7d"

namespace Endpoint

/-- Every endpoint. -/
def all : List Endpoint :=
  [systemInfo, systemHealth, listMenus, createMenu, menuTree, getMenu, updateMenu, deleteMenu,
    listRoles, createRole, selectRoles, getRole, updateRole, deleteRole, listUsers, createUser,
    getUser, updateUser, deleteUser, enableUser, disableUser, changePassword, reloadPolicy,
    checkPolicy, listRules, currentUser, currentMenuTree, changeOwnPassword]

/-- The method of an endpoint. -/
def method : Endpoint → String
  | createMenu | createRole | createUser | reloadPolicy | checkPolicy => "POST"
  | updateMenu | updateRole | updateUser | changePassword | changeOwnPassword => "PUT"
  | deleteMenu | deleteRole | deleteUser => "DELETE"
  | enableUser | disableUser => "PATCH"
  | _ => "GET"

/-- The group that an endpoint belongs to. -/
def group : Endpoint → String
  | systemInfo | systemHealth => "system"
  | listMenus | createMenu | menuTree | getMenu | updateMenu | deleteMenu => "menus"
  | listRoles | createRole | selectRoles | getRole | updateRole | deleteRole => "roles"
  | listUsers | createUser | getUser | updateUser | deleteUser | enableUser | disableUser
  | changePassword => "users"
  | reloadPolicy | checkPolicy | listRules => "policy"
  | currentUser | currentMenuTree | changeOwnPassword => "current"

/-- The segments of an endpoint's path after the version. -/
def segments : Endpoint → List Segment
  | systemInfo => [.fixed "system", .fixed "info"]
  | systemHealth => [.fixed "system", .fixed "health"]
  | listMenus | createMenu => [.fixed "menus"]
  | menuTree => [.fixed "menus.tree"]
  | getMenu | updateMenu | deleteMenu => [.fixed "menus", .id]
  | listRoles | createRole => [.fixed "roles"]
  | selectRoles => [.fixed "roles.select"]
  | getRole | updateRole | deleteRole => [.fixed "roles", .id]
  | listUsers | createUser => [.fixed "users"]
  | getUser | updateUser | deleteUser => [.fixed "users", .id]
  | enableUser => [.fixed "users", .id, .fixed "enable"]
  | disableUser => [.fixed "users", .id, .fixed "disable"]
  | changePassword => [.fixed "users", .id, .fixed "password"]
  | reloadPolicy => [.fixed "policy", .fixed "reload"]
  | checkPolicy => [.fixed "policy", .fixed "check"]
  | listRules => [.fixed "policy", .fixed "rules"]
  | currentUser => [.fixed "current", .fixed "user"]
  | currentMenuTree => [.fixed "current", .fixed "menus.tree"]
  | changeOwnPassword => [.fixed "current", .fixed "password"]

/-- The version that every path begins with. -/
def version : String := "v1"

/-- The path of an endpoint as a description shows it. -/
def shownPath (e : Endpoint) : String :=
  Text.join '/' ("" :: version :: e.segments.map Segment.shown)

/-- The ids in the places of some segments, if the pieces of a path fit the segments. -/
def idsIn : List Segment → List String → Option (List String)
  | [], [] => some []
  | .fixed text :: segments, piece :: pieces => if text = piece then idsIn segments pieces else none
  | .id :: segments, piece :: pieces =>
    if piece.isEmpty then none else (piece :: ·) <$> idsIn segments pieces
  | _, _ => none

/-- The ids in a path, if it is the path of an endpoint. -/
def idsAt? (e : Endpoint) (path : String) : Option (List String) :=
  match Text.split '/' path with
  | "" :: v :: pieces => if v = version then idsIn e.segments pieces else none
  | _ => none

/-- The endpoints at a path, each with the ids in the path. -/
def atPath (path : String) : List (Endpoint × List String) :=
  all.filterMap fun e => (e.idsAt? path).map (e, ·)

/-- The method that answers a request's method: a request for the head of an answer goes to the
endpoint that gives the whole of it. -/
def answeringMethod (method : String) : String := if method = "HEAD" then "GET" else method

/-- What becomes of a request by its path and method. -/
inductive Route where
  | unknownPath
  | wrongMethod
  | found (e : Endpoint) (ids : List String)
deriving DecidableEq, Repr

/-- Looks up a path and a method. -/
def route (path method : String) : Route :=
  match atPath path with
  | [] => .unknownPath
  | known =>
    match known.find? fun p => p.1.method == answeringMethod method with
    | some (e, ids) => .found e ids
    | none => .wrongMethod

end Endpoint

end AccessAdmin.Http
