import AccessAdmin.Menu.Forest
import AccessAdmin.Store.Call

/-!
# The tables

The rows of an in-memory store. Menus, roles and users are keyed by id, what they own by owner and
code or partner; the order of a table is the order of insertion. One counter numbers the inserted
menus, roles and users, whichever kind they are.

* `Tables.answer`: answers a question, or breaks off.
* `Tables.apply`: performs a change, or refuses it and changes nothing.
-/

namespace AccessAdmin.Store

/-- How many menus, roles and users were ever created. -/
structure Created where
  menus : Nat := 0
  roles : Nat := 0
  users : Nat := 0
deriving DecidableEq, Repr

/-- The rows of a store. -/
structure Tables where
  lastRowId : Int := 0
  created : Created := {}
  menus : List Menu := []
  menuActions : List MenuAction := []
  menuResources : List MenuResource := []
  roles : List Role := []
  roleMenus : List Grant := []
  users : List User := []
  userRoles : List Assignment := []
deriving DecidableEq, Repr

namespace Tables

/-! ## Questions -/

/-- The menus that a filter admits, in listing order. -/
def matchingMenus (t : Tables) (f : MenuFilter) : List Menu :=
  Menu.inOrder (t.menus.filter f.admits)

/-- The roles that a filter admits, in listing order. -/
def matchingRoles (t : Tables) (f : RoleFilter) : List Role :=
  let assigned (r : Role) : Bool :=
    f.userId.all fun user => t.userRoles.any fun a => a.userId == user && a.roleId == r.id
  (t.roles.filter fun r => f.admits r && assigned r).mergeSort Role.listedBefore

/-- The users that a filter admits, in listing order. -/
def matchingUsers (t : Tables) (f : UserFilter) : List User :=
  let holds (u : User) : Bool :=
    f.roleIds.all fun roles => t.userRoles.any fun a => roles.contains a.roleId && a.userId == u.id
  (t.users.filter fun u => f.admits u && holds u).mergeSort User.listedBefore

/-- The answer to a question that can be asked. -/
def ask (t : Tables) : (r : Read) → r.Reply
  | .queryMenus f p => Listing.ofRows (t.matchingMenus f) p
  | .getMenu id => t.menus.find? (·.id == id)
  | .listMenuActions ids => t.menuActions.filter (ids.contains ·.menuId)
  | .listMenuResources ids => t.menuResources.filter (ids.contains ·.menuId)
  | .queryRoles f p => Listing.ofRows (t.matchingRoles f) p
  | .getRole id => t.roles.find? (·.id == id)
  | .listRoleMenus ids => t.roleMenus.filter (ids.contains ·.roleId)
  | .rolesGrantingMenu id => (t.roleMenus.filter (·.menuId == id)).map Grant.roleId
  | .queryUsers f p => Listing.ofRows (t.matchingUsers f) p
  | .getUser id => t.users.find? (·.id == id)
  | .listUserRoles ids => t.userRoles.filter (ids.contains ·.userId)

/-- Answers a question; the one for a page that does not fit breaks off. -/
def answer (t : Tables) : (r : Read) → Except StoreError r.Reply
  | .queryMenus f p => (Listing.paginate (t.matchingMenus f) p).mapError fun _ => .overflow
  | .queryRoles f p => (Listing.paginate (t.matchingRoles f) p).mapError fun _ => .overflow
  | .queryUsers f p => (Listing.paginate (t.matchingUsers f) p).mapError fun _ => .overflow
  | r => .ok (t.ask r)

/-- A question that fits is answered. -/
theorem answer_of_fits (t : Tables) {r : Read} (h : r.fits = true) : t.answer r = .ok (t.ask r) := by
  cases r with
  | queryMenus f p | queryRoles f p | queryUsers f p =>
    rw [answer, Listing.paginate, if_pos (show p.all Pagination.fits = true from h)]
    rfl
  | getMenu _ | listMenuActions _ | listMenuResources _ | getRole _ | listRoleMenus _
  | rolesGrantingMenu _ | getUser _ | listUserRoles _ => rfl

/-! ## Changes -/

/-- Amends the row that is hit, in a table that has its rows by their ids, so that no two rows have
one; refuses when there is none. -/
def amend {α : Type} (rows : List α) (hit : α → Bool) (f : α → α) (what : String) :
    Except StoreError (List α) :=
  if rows.any hit then .ok (rows.map fun x => if hit x then f x else x)
  else .error (.notFound what)

/-- Amends the first row that is hit, in a table that has its rows in a list; refuses when there is
none. -/
def amendFirst {α : Type} (rows : List α) (hit : α → Bool) (f : α → α) (what : String) :
    Except StoreError (List α) :=
  if rows.any hit then .ok (rows.modify (rows.findIdx hit) f) else .error (.notFound what)

/-- Inserts a menu. -/
def createMenu (t : Tables) (m : Menu) : Except StoreError Tables :=
  if t.menus.any (·.id == m.id) then .error (.conflict s!"menu {m.id} exists")
  else
    let n := t.lastRowId + 1
    .ok { t with
      lastRowId := n
      created := { t.created with menus := t.created.menus + 1 }
      menus := t.menus ++ [{ m.bare with rowId := n }] }

/-- The stored menu with the columns that an update sets. -/
def updatedMenu (m row : Menu) : Menu :=
  { row with
    name := m.name
    sequence := m.sequence
    icon := m.icon
    router := m.router
    hidden := m.hidden
    parentId := m.parentId
    parentPath := m.parentPath
    updatedAt := m.updatedAt }

/-- Inserts a role; both its id and its name have to be new. -/
def createRole (t : Tables) (r : Role) : Except StoreError Tables :=
  if t.roles.any (·.id == r.id) then .error (.conflict s!"role {r.id} exists")
  else if t.roles.any (·.name == r.name) then .error (.conflict s!"role name {r.name} exists")
  else
    let n := t.lastRowId + 1
    .ok { t with
      lastRowId := n
      created := { t.created with roles := t.created.roles + 1 }
      roles := t.roles ++ [{ r.bare with rowId := n }] }

/-- Updates a role; no other role may have its name. -/
def updateRole (t : Tables) (r : Role) : Except StoreError Tables :=
  if t.roles.any fun row => row.name == r.name && row.id != r.id then
    .error (.conflict s!"role name {r.name} exists")
  else do
    let set (row : Role) : Role :=
      { row with name := r.name, sequence := r.sequence, memo := r.memo, updatedAt := r.updatedAt }
    return { t with roles := ← amend t.roles (·.id == r.id) set s!"role {r.id}" }

/-- Inserts a user; both the id and the username have to be new. -/
def createUser (t : Tables) (u : User) : Except StoreError Tables :=
  if t.users.any (·.id == u.id) then .error (.conflict s!"user {u.id} exists")
  else if t.users.any (·.username == u.username) then
    .error (.conflict s!"username {u.username} exists")
  else
    let n := t.lastRowId + 1
    .ok { t with
      lastRowId := n
      created := { t.created with users := t.created.users + 1 }
      users := t.users ++ [{ u.bare with rowId := n }] }

/-- Amends one user. -/
def amendUser (t : Tables) (id : String) (set : User → User) : Except StoreError Tables := do
  return { t with users := ← amend t.users (·.id == id) set s!"user {id}" }

/-- Updates a user's profile; no other user may have the username. -/
def updateUser (t : Tables) (u : User) : Except StoreError Tables :=
  if t.users.any fun row => row.username == u.username && row.id != u.id then
    .error (.conflict s!"username {u.username} exists")
  else
    t.amendUser u.id fun row =>
      { row with
        username := u.username
        realName := u.realName
        email := u.email
        phone := u.phone
        updatedAt := u.updatedAt }

/-- Adds a row that no row with the same key precedes. -/
def insertNew {α : Type} (rows : List α) (same : α → Bool) (row : α) (what : String) :
    Except StoreError (List α) :=
  if rows.any same then .error (.conflict what) else .ok (rows ++ [row])

/-- Whether an action is the one of a menu with a code. -/
def isAction (menuId code : String) (a : MenuAction) : Bool :=
  a.menuId == menuId && a.code == code

/-- Whether a resource is the one of a menu with a code. -/
def isResource (menuId code : String) (r : MenuResource) : Bool :=
  r.menuId == menuId && r.code == code

/-- Whether a grant is the one of a menu to a role. -/
def isGrant (roleId menuId : String) (g : Grant) : Bool :=
  g.roleId == roleId && g.menuId == menuId

/-- Performs a change. -/
def apply (t : Tables) : Write → Except StoreError Tables
  | .createMenu m => t.createMenu m
  | .updateMenu m => do
    return { t with menus := ← amend t.menus (·.id == m.id) (updatedMenu m) s!"menu {m.id}" }
  | .updateMenuParentPath id path => do
    return { t with
      menus := ← amend t.menus (·.id == id) (fun row => { row with parentPath := path }) s!"menu {id}" }
  | .deleteMenu id => .ok { t with menus := t.menus.filter (·.id != id) }
  | .createMenuAction a => do
    return { t with
      menuActions := ← insertNew t.menuActions (isAction a.menuId a.code) a
        s!"action {a.code} exists on menu {a.menuId}" }
  | .updateMenuAction a => do
    return { t with
      menuActions := ← amendFirst t.menuActions (isAction a.menuId a.code)
        (fun row => { row with name := a.name }) s!"action {a.code}" }
  | .deleteMenuAction menuId code =>
    .ok { t with menuActions := t.menuActions.filter (!isAction menuId code ·) }
  | .deleteMenuActions menuId =>
    .ok { t with menuActions := t.menuActions.filter (·.menuId != menuId) }
  | .createMenuResource r => do
    return { t with
      menuResources := ← insertNew t.menuResources (isResource r.menuId r.code) r
        s!"resource {r.code} exists on menu {r.menuId}" }
  | .updateMenuResource r => do
    return { t with
      menuResources := ← amendFirst t.menuResources (isResource r.menuId r.code)
        (fun row => { row with name := r.name, method := r.method, path := r.path })
        s!"resource {r.code}" }
  | .deleteMenuResource menuId code =>
    .ok { t with menuResources := t.menuResources.filter (!isResource menuId code ·) }
  | .deleteMenuResources menuId =>
    .ok { t with menuResources := t.menuResources.filter (·.menuId != menuId) }
  | .createRole r => t.createRole r
  | .updateRole r => t.updateRole r
  | .deleteRole id => .ok { t with roles := t.roles.filter (·.id != id) }
  | .createRoleMenu g => do
    return { t with
      roleMenus := ← insertNew t.roleMenus (isGrant g.roleId g.menuId) g
        s!"grant {g.menuId} exists on role {g.roleId}" }
  | .updateRoleMenu g => do
    return { t with
      roleMenus := ← amendFirst t.roleMenus (isGrant g.roleId g.menuId)
        (fun row => { row with actions := g.actions, resources := g.resources }) s!"grant {g.menuId}" }
  | .deleteRoleMenu roleId menuId =>
    .ok { t with roleMenus := t.roleMenus.filter (!isGrant roleId menuId ·) }
  | .deleteRoleMenus roleId => .ok { t with roleMenus := t.roleMenus.filter (·.roleId != roleId) }
  | .createUser u => t.createUser u
  | .updateUser u => t.updateUser u
  | .updateUserStatus id status => t.amendUser id fun row => { row with status := status }
  | .updateUserPassword id hash => t.amendUser id fun row => { row with passwordHash := hash }
  | .deleteUser id => .ok { t with users := t.users.filter (·.id != id) }
  | .createUserRole a => do
    return { t with
      userRoles := ← insertNew t.userRoles (· == a) a
        s!"user {a.userId} already holds role {a.roleId}" }
  | .deleteUserRole userId roleId =>
    .ok { t with userRoles := t.userRoles.filter (· != ⟨userId, roleId⟩) }
  | .deleteUserRoles userId => .ok { t with userRoles := t.userRoles.filter (·.userId != userId) }
  | .deleteRoleUsers roleId => .ok { t with userRoles := t.userRoles.filter (·.roleId != roleId) }

end Tables

end AccessAdmin.Store
