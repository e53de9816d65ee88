import AccessAdmin.Menu.Forest
import AccessAdmin.Paging
import AccessAdmin.Policy.Engine
import AccessAdmin.Role
import AccessAdmin.Service.Projection
import AccessAdmin.Timestamp.Reader
import AccessAdmin.User
import AccessAdmin.Wire.Shape

/-!
# Records as documents

How menus, roles, users and what belongs to them are written as documents, and how they are read
from them. Row ids and password hashes stay inside: they are neither written nor read.
-/

namespace AccessAdmin

open Wire

/-! ## Points in time and paths -/

/-- A point in time as its text. -/
def Timestamp.toJson (t : Timestamp) : Json := .str t.toText

/-- Reads a point in time. -/
def Timestamp.decode : Decoder Timestamp := Decode.parsed Timestamp.ofText?

/-- A path as its stored form. -/
def AncestorPath.toJson (p : AncestorPath) : Json := .str p.toStorage

/-- Reads a path from its stored form. -/
def AncestorPath.decode : Decoder AncestorPath := fun j => AncestorPath.ofStorage <$> Decode.text j

/-! ## Menus -/

namespace MenuAction

/-- The document of an action. -/
def toJson (a : MenuAction) : Json :=
  .obj [("menu_id", .str a.menuId), ("code", .str a.code), ("name", .str a.name)]

/-- The fields of an action. -/
def shape : Shape MenuAction :=
  MenuAction.mk <$> .optional "menu_id" Decode.text "" <*> .required "code" Decode.text
    <*> .required "name" Decode.text

end MenuAction

namespace MenuResource

/-- The document of a resource. -/
def toJson (r : MenuResource) : Json :=
  .obj [("menu_id", .str r.menuId), ("code", .str r.code), ("name", .str r.name),
    ("method", .str r.method), ("path", .str r.path)]

/-- The fields of a resource. -/
def shape : Shape MenuResource :=
  MenuResource.mk <$> .optional "menu_id" Decode.text "" <*> .required "code" Decode.text
    <*> .required "name" Decode.text <*> .optional "method" Decode.text ""
    <*> .optional "path" Decode.text ""

end MenuResource

namespace ActionInput

/-- The document of a described action. -/
def toJson (a : ActionInput) : Json := .obj [("code", .str a.code), ("name", .str a.name)]

/-- The fields of a described action. -/
def shape : Shape ActionInput :=
  ActionInput.mk <$> .required "code" Decode.text <*> .required "name" Decode.text

end ActionInput

namespace ResourceInput

/-- The document of a described resource. -/
def toJson (r : ResourceInput) : Json :=
  .obj [("code", .str r.code), ("name", .str r.name), ("method", .str r.method),
    ("path", .str r.path)]

/-- The fields of a described resource. -/
def shape : Shape ResourceInput :=
  ResourceInput.mk <$> .required "code" Decode.text <*> .required "name" Decode.text
    <*> .optional "method" Decode.text "" <*> .optional "path" Decode.text ""

end ResourceInput

namespace MenuForm

/-- The fields of a described menu, before its actions. -/
def headFields (f : MenuForm) : List (String × Json) :=
  [("name", .str f.name), ("sequence", .int f.sequence), ("icon", .str f.icon),
    ("router", .str f.router), ("hidden", .bool f.hidden)]

/-- The actions and resources of a described menu. -/
def ownedFields (f : MenuForm) : List (String × Json) :=
  [("actions", .arr (f.actions.map ActionInput.toJson)),
    ("resources", .arr (f.resources.map ResourceInput.toJson))]

/-- The fields of a described menu that come before a last part; the rest of the value is made of
that part. -/
def shapeWith {α β : Type} (middle : Shape α) (make : MenuForm → α → β) : Shape β :=
  let assemble (name : String) (sequence : Int) (icon router : String) (hidden : Bool) (part : α)
      (actions : List ActionInput) (resources : List ResourceInput) : β :=
    make ⟨name, sequence, icon, router, hidden, actions, resources⟩ part
  assemble <$> .required "name" Decode.text <*> .optional "sequence" Decode.int32 0
    <*> .optional "icon" Decode.text "" <*> .optional "router" Decode.text ""
    <*> .optional "hidden" Decode.bool false <*> middle
    <*> .optional "actions" (Decode.list ActionInput.shape.decode) []
    <*> .optional "resources" (Decode.list ResourceInput.shape.decode) []

end MenuForm

namespace MenuInput

/-- The document of a described menu. -/
def toJson (m : MenuInput) : Json :=
  .obj (m.headFields ++ [("parent_id", .str m.parentId)] ++ m.ownedFields)

/-- The fields of a described menu. -/
def shape : Shape MenuInput :=
  MenuForm.shapeWith (.optional "parent_id" Decode.text "") MenuForm.under

end MenuInput

namespace MenuSeed

mutual

/-- The document of a seed. -/
def toJson : MenuSeed → Json
  | node form children =>
    .obj (form.headFields ++ form.ownedFields ++ [("children", .arr (toJsonAll children))])

/-- The documents of some seeds. -/
def toJsonAll : List MenuSeed → List Json
  | [] => []
  | s :: rest => toJson s :: toJsonAll rest

end

/-- Reads a seed whose document is nested at most so deep. -/
def decodeWithin : Nat → Decoder MenuSeed
  | 0 => fun j => .error (.ofKind j)
  | depth + 1 =>
    (MenuSeed.node <$> MenuForm.shapeWith .noFields (fun f _ => f)
      <*> .optional "children" (Decode.list (decodeWithin depth)) []).decode

/-- Reads a seed. -/
def decode : Decoder MenuSeed := fun j => decodeWithin (j.depth + 1) j

end MenuSeed

namespace Menu

/-- The fields of a menu. -/
def fields (m : Menu) : List (String × Json) :=
  [("id", .str m.id), ("name", .str m.name), ("sequence", .int m.sequence), ("icon", .str m.icon),
    ("router", .str m.router), ("hidden", .bool m.hidden), ("parent_id", .str m.parentId),
    ("parent_path", m.parentPath.toJson), ("creator", .str m.creator),
    ("created_at", m.createdAt.toJson), ("updated_at", m.updatedAt.toJson),
    ("actions", .arr (m.actions.map MenuAction.toJson)),
    ("resources", .arr (m.resources.map MenuResource.toJson))]

/-- The document of a menu. -/
def toJson (m : Menu) : Json := .obj m.fields

/-- The fields of a menu, read from a document. -/
def shape : Shape Menu :=
  let make (id name : String) (sequence : Int) (icon router : String) (hidden : Bool)
      (parentId : String) (parentPath : AncestorPath) (creator : String)
      (createdAt updatedAt : Timestamp) (actions : List MenuAction)
      (resources : List MenuResource) : Menu :=
    ⟨id, name, sequence, icon, router, hidden, parentId, parentPath, creator, createdAt,
      updatedAt, 0, actions, resources⟩
  make <$> .required "id" Decode.text <*> .required "name" Decode.text
    <*> .required "sequence" Decode.int32 <*> .required "icon" Decode.text
    <*> .required "router" Decode.text <*> .required "hidden" Decode.bool
    <*> .required "parent_id" Decode.text <*> .required "parent_path" AncestorPath.decode
    <*> .required "creator" Decode.text <*> .required "created_at" Timestamp.decode
    <*> .required "updated_at" Timestamp.decode
    <*> .optional "actions" (Decode.list MenuAction.shape.decode) []
    <*> .optional "resources" (Decode.list MenuResource.shape.decode) []

end Menu

namespace MenuTree

mutual

/-- The document of a tree: the fields of its menu, and its children. -/
def toJson : MenuTree → Json
  | node m children => .obj (m.fields ++ [("children", .arr (toJsonAll children))])

/-- The documents of some trees. -/
def toJsonAll : List MenuTree → List Json
  | [] => []
  | t :: rest => toJson t :: toJsonAll rest

end

/-- Reads a tree whose document is nested at most so deep. The children are asked for before the
fields of the menu. -/
def decodeWithin : Nat → Decoder MenuTree
  | 0 => fun j => .error (.ofKind j)
  | depth + 1 => fun j =>
    match j with
    | .arr _ => .error .invalidType
    | j =>
      ((fun children menu => MenuTree.node menu children)
        <$> .required "children" (Decode.list (decodeWithin depth)) <*> Menu.shape).decode j

/-- Reads a tree. -/
def decode : Decoder MenuTree := fun j => decodeWithin (j.depth + 1) j

end MenuTree

/-! ## Roles -/

namespace Grant

/-- The document of a grant. -/
def toJson (g : Grant) : Json :=
  .obj [("role_id", .str g.roleId), ("menu_id", .str g.menuId), ("actions", .texts g.actions),
    ("resources", .texts g.resources)]

/-- The fields of a grant. -/
def shape : Shape Grant :=
  Grant.mk <$> .optional "role_id" Decode.text "" <*> .required "menu_id" Decode.text
    <*> .optional "actions" (Decode.list Decode.text) []
    <*> .optional "resources" (Decode.list Decode.text) []

end Grant

namespace GrantInput

/-- The document of a described grant. -/
def toJson (g : GrantInput) : Json :=
  .obj [("menu_id", .str g.menuId), ("actions", .texts g.actions), ("resources", .texts g.resources)]

/-- The fields of a described grant. -/
def shape : Shape GrantInput :=
  GrantInput.mk <$> .required "menu_id" Decode.text
    <*> .optional "actions" (Decode.list Decode.text) []
    <*> .optional "resources" (Decode.list Decode.text) []

end GrantInput

namespace RoleInput

/-- The document of a described role. -/
def toJson (r : RoleInput) : Json :=
  .obj [("name", .str r.name), ("sequence", .int r.sequence), ("memo", .str r.memo),
    ("menus", .arr (r.grants.map GrantInput.toJson))]

/-- The fields of a described role. -/
def shape : Shape RoleInput :=
  RoleInput.mk <$> .required "name" Decode.text <*> .optional "sequence" Decode.int32 0
    <*> .optional "memo" Decode.text ""
    <*> .optional "menus" (Decode.list GrantInput.shape.decode) []

end RoleInput

namespace Role

/-- The fields of a role. -/
def fields (r : Role) : List (String × Json) :=
  [("id", .str r.id), ("name", .str r.name), ("sequence", .int r.sequence), ("memo", .str r.memo),
    ("creator", .str r.creator), ("created_at", r.createdAt.toJson),
    ("updated_at", r.updatedAt.toJson), ("menus", .arr (r.grants.map Grant.toJson))]

/-- The document of a role. -/
def toJson (r : Role) : Json := .obj r.fields

/-- The fields of a role, read from a document. -/
def shape : Shape Role :=
  let make (id name : String) (sequence : Int) (memo creator : String)
      (createdAt updatedAt : Timestamp) (grants : List Grant) : Role :=
    ⟨id, name, sequence, memo, creator, createdAt, updatedAt, 0, grants⟩
  make <$> .required "id" Decode.text <*> .required "name" Decode.text
    <*> .required "sequence" Decode.int32 <*> .required "memo" Decode.text
    <*> .required "creator" Decode.text <*> .required "created_at" Timestamp.decode
    <*> .required "updated_at" Timestamp.decode
    <*> .optional "menus" (Decode.list Grant.shape.decode) []

end Role

/-! ## Users -/

/-- The document of a status. -/
def UserStatus.toJson (s : UserStatus) : Json := .str s.name

/-- Reads a status. -/
def UserStatus.decode : Decoder UserStatus :=
  Decode.variant UserStatus.ofName? ["enabled", "disabled"]

namespace Assignment

/-- The document of an assignment. -/
def toJson (a : Assignment) : Json := .obj [("user_id", .str a.userId), ("role_id", .str a.roleId)]

/-- The fields of an assignment. -/
def shape : Shape Assignment :=
  Assignment.mk <$> .required "user_id" Decode.text <*> .required "role_id" Decode.text

end Assignment

namespace UserInput

/-- The document of a described user. -/
def toJson (u : UserInput) : Json :=
  .obj [("username", .str u.username), ("real_name", .str u.realName),
    ("password", .str u.password), ("email", .str u.email), ("phone", .str u.phone),
    ("status", u.status.toJson), ("role_ids", .texts u.roleIds)]

/-- The fields of a described user. -/
def shape : Shape UserInput :=
  UserInput.mk <$> .required "username" Decode.text <*> .optional "real_name" Decode.text ""
    <*> .optional "password" Decode.text "" <*> .optional "email" Decode.text ""
    <*> .optional "phone" Decode.text "" <*> .optional "status" UserStatus.decode .enabled
    <*> .optional "role_ids" (Decode.list Decode.text) []

end UserInput

namespace User

/-- The fields of a user. -/
def fields (u : User) : List (String × Json) :=
  [("id", .str u.id), ("username", .str u.username), ("real_name", .str u.realName),
    ("email", .str u.email), ("phone", .str u.phone), ("status", u.status.toJson),
    ("creator", .str u.creator), ("created_at", u.createdAt.toJson),
    ("updated_at", u.updatedAt.toJson), ("roles", .arr (u.roles.map Assignment.toJson))]

/-- The document of a user. -/
def toJson (u : User) : Json := .obj u.fields

/-- The fields of a user, read from a document. -/
def shape : Shape User :=
  let make (id username realName email phone : String) (status : UserStatus) (creator : String)
      (createdAt updatedAt : Timestamp) (roles : List Assignment) : User :=
    ⟨id, username, realName, "", email, phone, status, creator, createdAt, updatedAt, 0, roles⟩
  make <$> .required "id" Decode.text <*> .required "username" Decode.text
    <*> .required "real_name" Decode.text <*> .optional "email" Decode.text ""
    <*> .optional "phone" Decode.text "" <*> .required "status" UserStatus.decode
    <*> .required "creator" Decode.text <*> .required "created_at" Timestamp.decode
    <*> .required "updated_at" Timestamp.decode
    <*> .optional "roles" (Decode.list Assignment.shape.decode) []

end User

namespace Profile

/-- The document of a profile. -/
def toJson (p : Profile) : Json :=
  .obj [("id", .str p.id), ("username", .str p.username), ("real_name", .str p.realName),
    ("root", .bool p.root), ("role_names", .texts p.roleNames)]

/-- The fields of a profile. -/
def shape : Shape Profile :=
  Profile.mk <$> .required "id" Decode.text <*> .required "username" Decode.text
    <*> .required "real_name" Decode.text <*> .required "root" Decode.bool
    <*> .required "role_names" (Decode.list Decode.text)

end Profile

/-! ## Pages -/

namespace Pagination

/-- The document of a wanted page. -/
def toJson (p : Pagination) : Json :=
  .obj [("current", .int p.current.toNat), ("page_size", .int p.pageSize.toInt)]

/-- The fields of a wanted page. -/
def shape : Shape Pagination :=
  Pagination.mk <$> .required "current" Decode.uint32 <*> .required "page_size" Decode.int64

end Pagination

namespace PageInfo

/-- The document of a page's numbers. -/
def toJson (p : PageInfo) : Json :=
  .obj [("total", .int p.total), ("current", .int p.current.toNat),
    ("page_size", .int p.pageSize.toInt)]

/-- The fields of a page's numbers. -/
def shape : Shape PageInfo :=
  PageInfo.mk <$> .required "total" Decode.uint64 <*> .required "current" Decode.uint32
    <*> .required "page_size" Decode.int64

end PageInfo

/-- The document of a listing, its rows under the given name. -/
def Listing.toJson {α : Type} (rows : String) (row : α → Json) (l : Listing α) : Json :=
  .obj [(rows, .arr (l.data.map row)), ("page", .orNull PageInfo.toJson l.page)]

/-! ## Rules -/

namespace Policy

/-- The document of a permission. -/
def Permission.toJson (p : Permission) : Json :=
  .obj [("subject", .str p.subject), ("path", .str p.path), ("method", .str p.method)]

/-- The fields of a permission. -/
def Permission.shape : Shape Permission :=
  Permission.mk <$> .required "subject" Decode.text <*> .required "path" Decode.text
    <*> .required "method" Decode.text

/-- The document of a membership. -/
def Membership.toJson (m : Membership) : Json := .obj [("user", .str m.user), ("role", .str m.role)]

/-- The fields of a membership. -/
def Membership.shape : Shape Membership :=
  Membership.mk <$> .required "user" Decode.text <*> .required "role" Decode.text

/-- The document of everything that an engine holds. -/
def Snapshot.toJson (s : Snapshot) : Json :=
  .obj [("permissions", .arr (s.permissions.map Permission.toJson)),
    ("memberships", .arr (s.memberships.map Membership.toJson))]

/-- The fields of a snapshot. -/
def Snapshot.shape : Shape Snapshot :=
  Snapshot.mk <$> .required "permissions" (Decode.list Permission.shape.decode)
    <*> .required "memberships" (Decode.list Membership.shape.decode)

end Policy

namespace Projection.Summary

/-- The document of what a projection of everything did. -/
def toJson (s : Summary) : Json :=
  .obj [("roles", .int s.roles), ("users", .int s.users), ("permissions", .int s.permissions),
    ("memberships", .int s.memberships), ("pruned", .int s.pruned)]

/-- The fields of such a document. -/
def shape : Shape Summary :=
  Summary.mk <$> .required "roles" Decode.uint64 <*> .required "users" Decode.uint64
    <*> .required "permissions" Decode.uint64 <*> .required "memberships" Decode.uint64
    <*> .required "pruned" Decode.uint64

end Projection.Summary

end AccessAdmin
