import AccessAdmin.Policy.Call
import AccessAdmin.Service.Script
import AccessAdmin.Wire.Rows

/-!
# Calls as documents

A call on a session, a call on the engine and a scripted transaction are objects whose part `call`
names what is asked for; the other parts are what it is asked with.

* `Store.Call.ofDocument?`, `Store.Call.replyToJson`: calls on a session, and their answers.
* `Policy.Call.ofDocument?`: calls on the engine.
* `Script.ofDocument?`: scripted transactions.
-/

namespace AccessAdmin

open Wire

/-! ## Calls on a session -/

/-- Reads a call on a session. -/
def Store.Call.ofDocument? (j : Json) : Option Store.Call :=
  let row := j.part "row"
  let filter := j.part "filter"
  let page := Pagination.ofPart? j
  let id := j.text "id"
  match j.text "call" with
  | "begin" => some .begin
  | "commit" => some .commit
  | "rollback" => some .rollback
  | "query_menus" => some (.read (.queryMenus (.ofParts filter) page))
  | "query_roles" => some (.read (.queryRoles (.ofParts filter) page))
  | "query_users" => some (.read (.queryUsers (.ofParts filter) page))
  | "get_menu" => some (.read (.getMenu id))
  | "get_role" => some (.read (.getRole id))
  | "get_user" => some (.read (.getUser id))
  | "list_menu_actions" => some (.read (.listMenuActions (j.textList "ids")))
  | "list_menu_resources" => some (.read (.listMenuResources (j.textList "ids")))
  | "list_role_menus" => some (.read (.listRoleMenus (j.textList "ids")))
  | "list_user_roles" => some (.read (.listUserRoles (j.textList "ids")))
  | "roles_granting_menu" => some (.read (.rolesGrantingMenu id))
  | "create_menu" => some (.write (.createMenu (.ofParts row)))
  | "update_menu" => some (.write (.updateMenu (.ofParts row)))
  | "update_menu_parent_path" =>
    some (.write (.updateMenuParentPath id (.ofStorage (j.text "path"))))
  | "delete_menu" => some (.write (.deleteMenu id))
  | "create_menu_action" => some (.write (.createMenuAction (.ofParts row)))
  | "update_menu_action" => some (.write (.updateMenuAction (.ofParts row)))
  | "delete_menu_action" => some (.write (.deleteMenuAction id (j.text "code")))
  | "delete_menu_actions" => some (.write (.deleteMenuActions id))
  | "create_menu_resource" => some (.write (.createMenuResource (.ofParts row)))
  | "update_menu_resource" => some (.write (.updateMenuResource (.ofParts row)))
  | "delete_menu_resource" => some (.write (.deleteMenuResource id (j.text "code")))
  | "delete_menu_resources" => some (.write (.deleteMenuResources id))
  | "create_role" => some (.write (.createRole (.ofParts row)))
  | "update_role" => some (.write (.updateRole (.ofParts row)))
  | "delete_role" => some (.write (.deleteRole id))
  | "create_role_menu" => some (.write (.createRoleMenu (.ofParts row)))
  | "update_role_menu" => some (.write (.updateRoleMenu (.ofParts row)))
  | "delete_role_menu" => some (.write (.deleteRoleMenu id (j.text "other")))
  | "delete_role_menus" => some (.write (.deleteRoleMenus id))
  | "create_user" => some (.write (.createUser (.ofParts row)))
  | "update_user" => some (.write (.updateUser (.ofParts row)))
  | "update_user_status" => some (.write (.updateUserStatus id (.ofPart j)))
  | "update_user_password" => some (.write (.updateUserPassword id (j.text "hash")))
  | "delete_user" => some (.write (.deleteUser id))
  | "create_user_role" => some (.write (.createUserRole (.ofParts row)))
  | "delete_user_role" => some (.write (.deleteUserRole id (j.text "other")))
  | "delete_user_roles" => some (.write (.deleteUserRoles id))
  | "delete_role_users" => some (.write (.deleteRoleUsers id))
  | _ => none

/-- The document of an answer to a question. -/
def Store.Read.replyToJson : (r : Store.Read) → r.Reply → Json
  | .queryMenus _ _, l => l.toJson "data" Menu.rowToJson
  | .getMenu _, m => .orNull Menu.rowToJson m
  | .listMenuActions _, xs => .arr (xs.map MenuAction.toJson)
  | .listMenuResources _, xs => .arr (xs.map MenuResource.toJson)
  | .queryRoles _ _, l => l.toJson "data" Role.rowToJson
  | .getRole _, r => .orNull Role.rowToJson r
  | .listRoleMenus _, xs => .arr (xs.map Grant.toJson)
  | .rolesGrantingMenu _, xs => .texts xs
  | .queryUsers _ _, l => l.toJson "data" User.secretRowToJson
  | .getUser _, u => .orNull User.secretRowToJson u
  | .listUserRoles _, xs => .arr (xs.map Assignment.toJson)

/-- The document of an answer to a call. -/
def Store.Call.replyToJson : (c : Store.Call) → c.Reply → Json
  | .read r, x => r.replyToJson x
  | .begin, _ => .null
  | .commit, _ => .null
  | .rollback, _ => .null
  | .write _, _ => .null

/-! ## Calls on the engine -/

/-- Reads a call on the engine. -/
def Policy.Call.ofDocument? (j : Json) : Option Policy.Call :=
  let subject := j.text "subject"
  let user := j.text "user"
  match j.text "call" with
  | "add_permission" => some (.addPermission subject (j.text "path") (j.text "method"))
  | "remove_permissions" => some (.removePermissions subject)
  | "add_membership" => some (.addMembership user (j.text "role"))
  | "remove_memberships" => some (.removeMemberships user)
  | "remove_role_memberships" => some (.removeRoleMemberships (j.text "role"))
  | "evaluate" => some (.evaluate subject (j.text "path") (j.text "method"))
  | "permissions_for" => some (.permissionsFor subject)
  | "memberships_for" => some (.membershipsFor user)
  | "snapshot" => some .snapshot
  | _ => none

/-! ## Scripts -/

namespace Script

/-- Reads a step whose document is nested at most so deep. -/
def stepWithin? : Nat → Json → Option Step
  | 0, _ => none
  | depth + 1, j => do
    let step ← match j.text "call" with
      | "in_transaction" => some .inTransaction
      | "sleep" => some (.pause (j.count "ms" 0))
      | "tx" => do
        let steps ← (j.items "steps").mapM (stepWithin? depth)
        some (.transaction (j.count? "timeout_ms") steps (j.text? "fail"))
      | _ => (Store.Call.ofDocument? j).map .call
    return if j.flag "catch" then .caught step else step

/-- Reads a script. -/
def ofDocument? (j : Json) : Option Script := do
  return ⟨j.count? "timeout_ms", ← (j.items "steps").mapM (stepWithin? j.depth), j.text? "fail"⟩

end Script

end AccessAdmin
