import AccessAdmin.Menu.Basic
import AccessAdmin.Paging
import AccessAdmin.Role
import AccessAdmin.Store.Error
import AccessAdmin.User

/-!
# What can be asked of a store

A session asks a store to read, to write, or to open or end its transaction. Reads answer rows;
writes answer nothing but may be refused.

* `Read.Reply`, `Call.Reply`: what each call answers.
* `Call.name`: the name of a call, under which faults are planned.
-/

namespace AccessAdmin.Store

/-- A question about the stored rows. -/
inductive Read where
  | queryMenus (filter : MenuFilter) (pagination : Option Pagination)
  | getMenu (id : String)
  | listMenuActions (menuIds : List String)
  | listMenuResources (menuIds : List String)
  | queryRoles (filter : RoleFilter) (pagination : Option Pagination)
  | getRole (id : String)
  | listRoleMenus (roleIds : List String)
  | rolesGrantingMenu (menuId : String)
  | queryUsers (filter : UserFilter) (pagination : Option Pagination)
  | getUser (id : String)
  | listUserRoles (userIds : List String)
deriving DecidableEq, Repr

/-- The type of the answer to a question. -/
abbrev Read.Reply : Read → Type
  | queryMenus _ _ => Listing Menu
  | getMenu _ => Option Menu
  | listMenuActions _ => List MenuAction
  | listMenuResources _ => List MenuResource
  | queryRoles _ _ => Listing Role
  | getRole _ => Option Role
  | listRoleMenus _ => List Grant
  | rolesGrantingMenu _ => List String
  | queryUsers _ _ => Listing User
  | getUser _ => Option User
  | listUserRoles _ => List Assignment

/-- Whether a question can be asked: it is for every row, or for a page that fits. -/
def Read.fits : Read → Bool
  | queryMenus _ p | queryRoles _ p | queryUsers _ p => p.all Pagination.fits
  | _ => true

/-- A change of the stored rows. -/
inductive Write where
  | createMenu (row : Menu)
  | updateMenu (row : Menu)
  | updateMenuParentPath (id : String) (path : AncestorPath)
  | deleteMenu (id : String)
  | createMenuAction (row : MenuAction)
  | updateMenuAction (row : MenuAction)
  | deleteMenuAction (menuId code : String)
  | deleteMenuActions (menuId : String)
  | createMenuResource (row : MenuResource)
  | updateMenuResource (row : MenuResource)
  | deleteMenuResource (menuId code : String)
  | deleteMenuResources (menuId : String)
  | createRole (row : Role)
  | updateRole (row : Role)
  | deleteRole (id : String)
  | createRoleMenu (row : Grant)
  | updateRoleMenu (row : Grant)
  | deleteRoleMenu (roleId menuId : String)
  | deleteRoleMenus (roleId : String)
  | createUser (row : User)
  | updateUser (row : User)
  | updateUserStatus (id : String) (status : UserStatus)
  | updateUserPassword (id hash : String)
  | deleteUser (id : String)
  | createUserRole (row : Assignment)
  | deleteUserRole (userId roleId : String)
  | deleteUserRoles (userId : String)
  | deleteRoleUsers (roleId : String)
deriving DecidableEq, Repr

/-- A call on a session. -/
inductive Call where
  | begin
  | commit
  | rollback
  | read (r : Read)
  | write (w : Write)
deriving DecidableEq, Repr

/-- The type of the answer to a call that succeeds. -/
abbrev Call.Reply : Call → Type
  | read r => r.Reply
  | _ => Unit

/-- The name of a question. -/
def Read.name : Read → String
  | queryMenus _ _ => "query_menus"
  | getMenu _ => "get_menu"
  | listMenuActions _ => "list_menu_actions"
  | listMenuResources _ => "list_menu_resources"
  | queryRoles _ _ => "query_roles"
  | getRole _ => "get_role"
  | listRoleMenus _ => "list_role_menus"
  | rolesGrantingMenu _ => "roles_granting_menu"
  | queryUsers _ _ => "query_users"
  | getUser _ => "get_user"
  | listUserRoles _ => "list_user_roles"

/-- The name of a change. -/
def Write.name : Write → String
  | createMenu _ => "create_menu"
  | updateMenu _ => "update_menu"
  | updateMenuParentPath _ _ => "update_menu_parent_path"
  | deleteMenu _ => "delete_menu"
  | createMenuAction _ => "create_menu_action"
  | updateMenuAction _ => "update_menu_action"
  | deleteMenuAction _ _ => "delete_menu_action"
  | deleteMenuActions _ => "delete_menu_actions"
  | createMenuResource _ => "create_menu_resource"
  | updateMenuResource _ => "update_menu_resource"
  | deleteMenuResource _ _ => "delete_menu_resource"
  | deleteMenuResources _ => "delete_menu_resources"
  | createRole _ => "create_role"
  | updateRole _ => "update_role"
  | deleteRole _ => "delete_role"
  | createRoleMenu _ => "create_role_menu"
  | updateRoleMenu _ => "update_role_menu"
  | deleteRoleMenu _ _ => "delete_role_menu"
  | deleteRoleMenus _ => "delete_role_menus"
  | createUser _ => "create_user"
  | updateUser _ => "update_user"
  | updateUserStatus _ _ => "update_user_status"
  | updateUserPassword _ _ => "update_user_password"
  | deleteUser _ => "delete_user"
  | createUserRole _ => "create_user_role"
  | deleteUserRole _ _ => "delete_user_role"
  | deleteUserRoles _ => "delete_user_roles"
  | deleteRoleUsers _ => "delete_role_users"

/-- The name of a call. -/
def Call.name : Call → String
  | begin => "begin"
  | commit => "commit"
  | rollback => "rollback"
  | read r => r.name
  | write w => w.name

end AccessAdmin.Store
