import AccessAdmin.Database.Filters
import AccessAdmin.Database.Peer
import AccessAdmin.Database.Tables
import AccessAdmin.Store.Call

/-!
# Calls as statements

What a session asks of a store becomes statements to a peer. A failure is told by the name of the
work alone; only a key that is already there is told apart.

* `Read.ask`: answers a question.
* `Write.apply`: performs a change, by one statement.
-/

namespace AccessAdmin.Store

open Database

/-- Work on a connection. -/
abbrev Work (π α : Type) : Type := ExceptT StoreError (StateM π) α

/-- What is reported when work fails. -/
def failure (work : String) (f : Failure) : StoreError :=
  if f.code = Failure.duplicateKey then .conflict work else .unexpected work

section Work

variable {π α : Type} [Peer π]

/-- Sends a statement. -/
def send (work : String) (s : Statement) : Work π Answer := fun p =>
  let (r, p) := Peer.execute p s
  (r.mapError (failure work), p)

/-- The values of rows, in order; one empty cell spoils all of them. -/
def valuesOf (work : String) (record : Record α) (rows : List Row) : Except StoreError (List α) :=
  match rows.mapM record.ofRow? with
  | some values => .ok values
  | none => .error (.unexpected work)

/-- The values of the rows that a statement answers. -/
def fetchAll (work : String) (record : Record α) (s : Statement) : Work π (List α) := do
  liftExcept (valuesOf work record (← send work s).rows)
where
  liftExcept (r : Except StoreError (List α)) : Work π (List α) := fun p => (r, p)

/-- The value of the first row that a statement answers. -/
def fetchFirst (work : String) (record : Record α) (s : Statement) : Work π (Option α) := do
  match (← send work s).rows with
  | [] => return none
  | row :: _ =>
    match record.ofRow? row with
    | some a => return some a
    | none => throw (.unexpected work)

/-- How many rows there are; never less than none. -/
def fetchCount (work : String) (s : Statement) : Work π Nat := do
  match ← fetchFirst work (.number "COUNT(*)") s with
  | some n => return n.toNat
  | none => throw (.unexpected work)

/-- The values or the first error among them. -/
def sound (values : List (Except StoreError α)) : Work π (List α) := fun p => (values.mapM id, p)

/-- The window of a page; where it has none the work breaks off. -/
def windowOf (pagination : Option Pagination) : Work π (Option Window) :=
  match pagination with
  | none => pure none
  | some p =>
    match p.window with
    | .ok window => pure window
    | .error _ => throw .overflow

/-- A listing of the rows of a table. Paging counts them first. -/
def listing (work table : String) (record : Record (Except StoreError α)) (order : List Sorting)
    (conditions : List Condition) (pagination : Option Pagination) : Work π (Listing α) := do
  let c := Condition.all conditions
  let total ← match pagination with
    | none => pure 0
    | some _ => fetchCount work (.count table c)
  let rows ← fetchAll work record
    (.select record.columns table c order (← windowOf pagination))
  return Listing.withTotal (← sound rows) total pagination

/-- The row of a table with an id. -/
def rowById (work table : String) (record : Record α) (id : String) : Work π (Option α) :=
  fetchFirst work record (.select record.columns table (.equal "id" (.text id)) [] none)

/-- The rows of a table that belong to some owners, in the order of their insertion. -/
def rowsOf (work table : String) (record : Record α) (owner : String) (ids : List String) :
    Work π (List α) :=
  fetchAll work record (.select record.columns table (.oneOf owner ids) [⟨"row_id", false⟩] none)

/-- Sets columns of the row with a key, which has to be there. -/
def updateOne (work table what : String) (key : List (String × Value))
    (set : List (String × Setting)) : Work π Unit := do
  if (← send work (.update table key set)).affected = 0 then throw (.notFound what)

/-- Inserts a row. -/
def insertOne (work table : String) (row : List (String × Value)) : Work π Unit :=
  discard (send work (.insert table row))

/-- Removes the rows with a key, if there are any. -/
def deleteAll (work table : String) (key : List (String × Value)) : Work π Unit :=
  discard (send work (.delete table key))

end Work

/-- The higher sequence first, on a tie the newer row. -/
def bySequence : List Sorting := [⟨"sequence", true⟩, ⟨"row_id", true⟩]

/-- The newer row first. -/
def byAge : List Sorting := [⟨"row_id", true⟩]

/-- The key of a row with an id. -/
def idKey (id : String) : List (String × Value) := [("id", .text id)]

variable {π : Type} [Peer π]

/-- Answers a question. -/
def Read.ask : (r : Read) → Work π r.Reply
  | .queryMenus f p =>
    listing "query menus" "menus" (.ok <$> Menu.record) bySequence f.conditions p
  | .getMenu id => rowById "get menu" "menus" Menu.record id
  | .listMenuActions ids =>
    rowsOf "list menu actions" "menu_actions" MenuAction.record "menu_id" ids
  | .listMenuResources ids =>
    rowsOf "list menu resources" "menu_resources" MenuResource.record "menu_id" ids
  | .queryRoles f p =>
    listing "query roles" "roles" (.ok <$> Role.record) bySequence f.conditions p
  | .getRole id => rowById "get role" "roles" Role.record id
  | .listRoleMenus ids => rowsOf "list role menus" "role_menus" Grant.record "role_id" ids
  | .rolesGrantingMenu id =>
    let record := Record.text "role_id"
    fetchAll "list roles granting menu" record
      (.select record.columns "role_menus" (.equal "menu_id" (.text id)) [⟨"row_id", false⟩] none)
  | .queryUsers f p => listing "query users" "users" User.record byAge f.conditions p
  | .getUser id => do
    match ← rowById "get user" "users" User.record id with
    | none => return none
    | some (.ok u) => return some u
    | some (.error e) => throw e
  | .listUserRoles ids => rowsOf "list user roles" "user_roles" Assignment.record "user_id" ids

/-- Performs a change. -/
def Write.apply : Write → Work π Unit
  | .createMenu m => insertOne "insert menu" "menus" m.row
  | .updateMenu m => updateOne "update menu" "menus" s!"menu {m.id}" (idKey m.id) m.settings
  | .updateMenuParentPath id path =>
    updateOne "update menu parent path" "menus" s!"menu {id}" (idKey id)
      [("parent_path", .value (.text path.toStorage))]
  | .deleteMenu id => deleteAll "delete menu" "menus" (idKey id)
  | .createMenuAction a => insertOne "insert menu action" "menu_actions" a.row
  | .updateMenuAction a =>
    updateOne "update menu action" "menu_actions" s!"action {a.code}"
      (MenuAction.key a.menuId a.code) a.settings
  | .deleteMenuAction menuId code =>
    deleteAll "delete menu action" "menu_actions" (MenuAction.key menuId code)
  | .deleteMenuActions menuId =>
    deleteAll "delete menu actions" "menu_actions" [("menu_id", .text menuId)]
  | .createMenuResource r => insertOne "insert menu resource" "menu_resources" r.row
  | .updateMenuResource r =>
    updateOne "update menu resource" "menu_resources" s!"resource {r.code}"
      (MenuAction.key r.menuId r.code) r.settings
  | .deleteMenuResource menuId code =>
    deleteAll "delete menu resource" "menu_resources" (MenuAction.key menuId code)
  | .deleteMenuResources menuId =>
    deleteAll "delete menu resources" "menu_resources" [("menu_id", .text menuId)]
  | .createRole r => insertOne "insert role" "roles" r.row
  | .updateRole r => updateOne "update role" "roles" s!"role {r.id}" (idKey r.id) r.settings
  | .deleteRole id => deleteAll "delete role" "roles" (idKey id)
  | .createRoleMenu g => insertOne "insert role menu" "role_menus" g.row
  | .updateRoleMenu g =>
    updateOne "update role menu" "role_menus" s!"grant {g.menuId}" (Grant.key g.roleId g.menuId)
      g.settings
  | .deleteRoleMenu roleId menuId =>
    deleteAll "delete role menu" "role_menus" (Grant.key roleId menuId)
  | .deleteRoleMenus roleId => deleteAll "delete role menus" "role_menus" [("role_id", .text roleId)]
  | .createUser u => insertOne "insert user" "users" u.row
  | .updateUser u => updateOne "update user" "users" s!"user {u.id}" (idKey u.id) u.settings
  | .updateUserStatus id status =>
    updateOne "update user status" "users" s!"user {id}" (idKey id)
      [("status", .value (.number status.code)), ("updated_at", .now)]
  | .updateUserPassword id hash =>
    updateOne "update user password" "users" s!"user {id}" (idKey id)
      [("password_hash", .value (.text hash)), ("updated_at", .now)]
  | .deleteUser id => deleteAll "delete user" "users" (idKey id)
  | .createUserRole a => insertOne "insert user role" "user_roles" a.row
  | .deleteUserRole userId roleId =>
    deleteAll "delete user role" "user_roles" (Assignment.row ⟨userId, roleId⟩)
  | .deleteUserRoles userId => deleteAll "delete user roles" "user_roles" [("user_id", .text userId)]
  | .deleteRoleUsers roleId => deleteAll "delete role users" "user_roles" [("role_id", .text roleId)]

end AccessAdmin.Store
