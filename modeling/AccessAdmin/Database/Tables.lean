import AccessAdmin.Code
import AccessAdmin.Database.Record
import AccessAdmin.Database.Statement
import AccessAdmin.Menu.Basic
import AccessAdmin.Role
import AccessAdmin.Store.Error
import AccessAdmin.User

/-!
# The tables of the database

For each kind of row: in which columns it is kept, how it is read back, and which columns inserting
and updating it set. Lists of codes are kept as one text, and so is the path of a menu.
-/

namespace AccessAdmin

open Database

/-! ## Menus -/

/-- A menu as it is kept. -/
def Menu.record : Record Menu :=
  let menu (rowId : Int) (id name : String) (sequence : Int) (icon router : String)
      (hidden : Bool) (parentId parentPath creator : String) (createdAt updatedAt : Timestamp) :
      Menu :=
    { id, name, sequence, icon, router, hidden, parentId, creator, createdAt, updatedAt, rowId
      parentPath := .ofStorage parentPath, actions := [], resources := [] }
  menu <$> .number "row_id" <*> .text "id" <*> .text "name" <*> .number "sequence" <*> .text "icon"
    <*> .text "router" <*> .bool "hidden" <*> .text "parent_id" <*> .text "parent_path"
    <*> .text "creator" <*> .time "created_at" <*> .time "updated_at"

/-- The columns of a new menu. -/
def Menu.row (m : Menu) : List (String × Value) :=
  [("id", .text m.id), ("name", .text m.name), ("sequence", .number m.sequence),
    ("icon", .text m.icon), ("router", .text m.router), ("hidden", .bool m.hidden),
    ("parent_id", .text m.parentId), ("parent_path", .text m.parentPath.toStorage),
    ("creator", .text m.creator), ("created_at", .ofTime m.createdAt),
    ("updated_at", .ofTime m.updatedAt)]

/-- The columns that an update of a menu sets. -/
def Menu.settings (m : Menu) : List (String × Setting) :=
  [("name", .value (.text m.name)), ("sequence", .value (.number m.sequence)),
    ("icon", .value (.text m.icon)), ("router", .value (.text m.router)),
    ("hidden", .value (.bool m.hidden)), ("parent_id", .value (.text m.parentId)),
    ("parent_path", .value (.text m.parentPath.toStorage)),
    ("updated_at", .value (.ofTime m.updatedAt))]

/-- An action as it is kept. -/
def MenuAction.record : Record MenuAction :=
  MenuAction.mk <$> .text "menu_id" <*> .text "code" <*> .text "name"

/-- The columns by which an action or a resource of a menu is found. -/
def MenuAction.key (menuId code : String) : List (String × Value) :=
  [("menu_id", .text menuId), ("code", .text code)]

/-- The columns of a new action. -/
def MenuAction.row (a : MenuAction) : List (String × Value) :=
  MenuAction.key a.menuId a.code ++ [("name", .text a.name)]

/-- The columns that an update of an action sets. -/
def MenuAction.settings (a : MenuAction) : List (String × Setting) :=
  [("name", .value (.text a.name))]

/-- A resource as it is kept. -/
def MenuResource.record : Record MenuResource :=
  MenuResource.mk <$> .text "menu_id" <*> .text "code" <*> .text "name" <*> .text "method"
    <*> .text "path"

/-- The columns of a new resource. -/
def MenuResource.row (r : MenuResource) : List (String × Value) :=
  MenuAction.key r.menuId r.code ++
    [("name", .text r.name), ("method", .text r.method), ("path", .text r.path)]

/-- The columns that an update of a resource sets. -/
def MenuResource.settings (r : MenuResource) : List (String × Setting) :=
  [("name", .value (.text r.name)), ("method", .value (.text r.method)),
    ("path", .value (.text r.path))]

/-! ## Roles -/

/-- A role as it is kept. -/
def Role.record : Record Role :=
  let role (rowId : Int) (id name : String) (sequence : Int) (memo creator : String)
      (createdAt updatedAt : Timestamp) : Role :=
    { id, name, sequence, memo, creator, createdAt, updatedAt, rowId, grants := [] }
  role <$> .number "row_id" <*> .text "id" <*> .text "name" <*> .number "sequence" <*> .text "memo"
    <*> .text "creator" <*> .time "created_at" <*> .time "updated_at"

/-- The columns of a new role. -/
def Role.row (r : Role) : List (String × Value) :=
  [("id", .text r.id), ("name", .text r.name), ("sequence", .number r.sequence),
    ("memo", .text r.memo), ("creator", .text r.creator), ("created_at", .ofTime r.createdAt),
    ("updated_at", .ofTime r.updatedAt)]

/-- The columns that an update of a role sets. -/
def Role.settings (r : Role) : List (String × Setting) :=
  [("name", .value (.text r.name)), ("sequence", .value (.number r.sequence)),
    ("memo", .value (.text r.memo)), ("updated_at", .value (.ofTime r.updatedAt))]

/-- A grant as it is kept. -/
def Grant.record : Record Grant :=
  let grant (roleId menuId actions resources : String) : Grant :=
    ⟨roleId, menuId, Code.splitList actions, Code.splitList resources⟩
  grant <$> .text "role_id" <*> .text "menu_id" <*> .text "actions" <*> .text "resources"

/-- The columns by which a grant is found. -/
def Grant.key (roleId menuId : String) : List (String × Value) :=
  [("role_id", .text roleId), ("menu_id", .text menuId)]

/-- The columns of a new grant. -/
def Grant.row (g : Grant) : List (String × Value) :=
  Grant.key g.roleId g.menuId ++
    [("actions", .text (Code.joinList g.actions)), ("resources", .text (Code.joinList g.resources))]

/-- The columns that an update of a grant sets. -/
def Grant.settings (g : Grant) : List (String × Setting) :=
  [("actions", .value (.text (Code.joinList g.actions))),
    ("resources", .value (.text (Code.joinList g.resources)))]

/-! ## Users -/

/-- A user as it is kept, unless the number of its status stands for none. -/
def User.record : Record (Except StoreError User) :=
  let user (rowId : Int) (id username realName passwordHash email phone : String) (code : Int)
      (creator : String) (createdAt updatedAt : Timestamp) : Except StoreError User :=
    match UserStatus.ofCode? code with
    | none => .error (.unexpected s!"unknown user status {code} for user {id}")
    | some status =>
      .ok { id, username, realName, passwordHash, email, phone, status, creator, createdAt
            updatedAt, rowId, roles := [] }
  user <$> .number "row_id" <*> .text "id" <*> .text "username" <*> .text "real_name"
    <*> .text "password_hash" <*> .text "email" <*> .text "phone" <*> .number "status"
    <*> .text "creator" <*> .time "created_at" <*> .time "updated_at"

/-- The columns of a new user. -/
def User.row (u : User) : List (String × Value) :=
  [("id", .text u.id), ("username", .text u.username), ("real_name", .text u.realName),
    ("password_hash", .text u.passwordHash), ("email", .text u.email), ("phone", .text u.phone),
    ("status", .number u.status.code), ("creator", .text u.creator),
    ("created_at", .ofTime u.createdAt), ("updated_at", .ofTime u.updatedAt)]

/-- The columns that an update of a user sets. -/
def User.settings (u : User) : List (String × Setting) :=
  [("username", .value (.text u.username)), ("real_name", .value (.text u.realName)),
    ("email", .value (.text u.email)), ("phone", .value (.text u.phone)),
    ("updated_at", .value (.ofTime u.updatedAt))]

/-- An assignment as it is kept. -/
def Assignment.record : Record Assignment :=
  Assignment.mk <$> .text "user_id" <*> .text "role_id"

/-- The columns of a new assignment, by all of which it is found. -/
def Assignment.row (a : Assignment) : List (String × Value) :=
  [("user_id", .text a.userId), ("role_id", .text a.roleId)]

end AccessAdmin
