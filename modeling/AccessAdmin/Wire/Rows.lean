import AccessAdmin.Wire.Lookup
import AccessAdmin.Wire.Records

/-!
# Rows as documents

Rows as a store keeps them, with their row ids and, where it is wanted, their password hashes. A
part that a document leaves out is empty, no or zero, a user is enabled, and the time is the first
moment of 2024.
-/

namespace AccessAdmin

open Wire

/-- The first moment of 2024. -/
def Timestamp.customary : Timestamp := ⟨1704067200, 0⟩

/-- A point in time under a name. -/
def Timestamp.ofPart (j : Json) (name : String) : Timestamp :=
  ((j.text? name).bind Timestamp.ofText?).getD customary

/-! ## Reading -/

/-- Reads an action. -/
def MenuAction.ofParts (j : Json) : MenuAction :=
  ⟨j.text "menu_id", j.text "code", j.text "name"⟩

/-- Reads a resource. -/
def MenuResource.ofParts (j : Json) : MenuResource :=
  ⟨j.text "menu_id", j.text "code", j.text "name", j.text "method", j.text "path"⟩

/-- Reads a menu. -/
def Menu.ofParts (j : Json) : Menu :=
  { id := j.text "id"
    name := j.text "name"
    sequence := j.number "sequence"
    icon := j.text "icon"
    router := j.text "router"
    hidden := j.flag "hidden"
    parentId := j.text "parent_id"
    parentPath := .ofStorage (j.text "parent_path")
    creator := j.text "creator"
    createdAt := .ofPart j "created_at"
    updatedAt := .ofPart j "updated_at"
    rowId := j.number "row_id"
    actions := (j.items "actions").map MenuAction.ofParts
    resources := (j.items "resources").map MenuResource.ofParts }

/-- Reads a grant. -/
def Grant.ofParts (j : Json) : Grant :=
  ⟨j.text "role_id", j.text "menu_id", j.textList "actions", j.textList "resources"⟩

/-- Reads a role. -/
def Role.ofParts (j : Json) : Role :=
  { id := j.text "id"
    name := j.text "name"
    sequence := j.number "sequence"
    memo := j.text "memo"
    creator := j.text "creator"
    createdAt := .ofPart j "created_at"
    updatedAt := .ofPart j "updated_at"
    rowId := j.number "row_id"
    grants := (j.items "menus").map Grant.ofParts }

/-- Reads an assignment. -/
def Assignment.ofParts (j : Json) : Assignment := ⟨j.text "user_id", j.text "role_id"⟩

/-- A status under the name `status`. -/
def UserStatus.ofPart (j : Json) : UserStatus :=
  ((j.text? "status").bind UserStatus.ofName?).getD .enabled

/-- Reads a user. -/
def User.ofParts (j : Json) : User :=
  { id := j.text "id"
    username := j.text "username"
    realName := j.text "real_name"
    passwordHash := j.text "password_hash"
    email := j.text "email"
    phone := j.text "phone"
    status := .ofPart j
    creator := j.text "creator"
    createdAt := .ofPart j "created_at"
    updatedAt := .ofPart j "updated_at"
    rowId := j.number "row_id"
    roles := (j.items "roles").map Assignment.ofParts }

/-- Reads a filter of menus. -/
def MenuFilter.ofParts (j : Json) : MenuFilter :=
  { ids := j.textList? "ids"
    likeName := j.text? "like_name"
    parentId := j.text? "parent_id"
    pathStart := (j.text? "prefix_parent_path").map .ofStorage
    hidden := j.flag? "hidden" }

/-- Reads a filter of roles. -/
def RoleFilter.ofParts (j : Json) : RoleFilter :=
  { ids := j.textList? "ids"
    name := j.text? "name"
    likeName := j.text? "like_name"
    userId := j.text? "user_id" }

/-- Reads a filter of users. -/
def UserFilter.ofParts (j : Json) : UserFilter :=
  { ids := j.textList? "ids"
    username := j.text? "username"
    likeUsername := j.text? "like_username"
    likeRealName := j.text? "like_real_name"
    status := (j.text? "status").bind UserStatus.ofName?
    roleIds := j.textList? "role_ids" }

/-- Reads a wanted page. -/
def Pagination.ofParts (j : Json) : Pagination :=
  ⟨UInt32.ofNat (j.count "current" 1), Int64.ofInt (j.number "page_size" 10)⟩

/-- A wanted page under the name `pagination`, if it is there. -/
def Pagination.ofPart? (j : Json) : Option Pagination :=
  if j.has "pagination" then some (.ofParts (j.part "pagination")) else none

/-! ## Writing -/

/-- The document of a menu with its row id. -/
def Menu.rowToJson (m : Menu) : Json := .obj (m.fields ++ [("row_id", .int m.rowId)])

/-- The document of a role with its row id. -/
def Role.rowToJson (r : Role) : Json := .obj (r.fields ++ [("row_id", .int r.rowId)])

/-- The document of a user with its row id. -/
def User.rowToJson (u : User) : Json := .obj (u.fields ++ [("row_id", .int u.rowId)])

/-- The document of a user with its row id and its password hash. -/
def User.secretRowToJson (u : User) : Json :=
  .obj (u.fields ++ [("row_id", .int u.rowId), ("password_hash", .str u.passwordHash)])

end AccessAdmin
