import AccessAdmin.Database.Condition
import AccessAdmin.Menu.Basic
import AccessAdmin.Role
import AccessAdmin.User

/-!
# Filters as conditions

Every part of a filter that is there becomes a condition, in a fixed order. The path of a root menu
is a beginning of every path and so becomes none.
-/

namespace AccessAdmin

open Database

/-- The condition that a menu's path begins with `path`, id by id. -/
def AncestorPath.startCondition (path : AncestorPath) : Condition :=
  .either (.equal "parent_path" (.text path.toStorage))
    (.like "parent_path" (Pattern.below path.toStorage))

/-- The conditions on a row of a menu. -/
def MenuFilter.conditions (f : MenuFilter) : List Condition :=
  (f.ids.map (.oneOf "id")).toList ++
    (f.likeName.map fun s => .like "name" (Pattern.containing s)).toList ++
    (f.parentId.map fun s => .equal "parent_id" (.text s)).toList ++
    ((f.pathStart.filter fun p => !p.isRoot).map AncestorPath.startCondition).toList ++
    (f.hidden.map fun b => .equal "hidden" (.bool b)).toList

/-- The conditions on a row of a role. -/
def RoleFilter.conditions (f : RoleFilter) : List Condition :=
  (f.ids.map (.oneOf "id")).toList ++
    (f.name.map fun s => .equal "name" (.text s)).toList ++
    (f.likeName.map fun s => .like "name" (Pattern.containing s)).toList ++
    (f.userId.map fun s =>
      .among "id" "role_id" "user_roles" (.equal "user_id" (.text s))).toList

/-- The conditions on a row of a user. -/
def UserFilter.conditions (f : UserFilter) : List Condition :=
  (f.ids.map (.oneOf "id")).toList ++
    (f.username.map fun s => .equal "username" (.text s)).toList ++
    (f.likeUsername.map fun s => .like "username" (Pattern.containing s)).toList ++
    (f.likeRealName.map fun s => .like "real_name" (Pattern.containing s)).toList ++
    (f.status.map fun s => .equal "status" (.number s.code)).toList ++
    (f.roleIds.map fun ss => .among "id" "user_id" "user_roles" (.oneOf "role_id" ss)).toList

end AccessAdmin
