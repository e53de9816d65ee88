import AccessAdmin.Text.Search
import AccessAdmin.Timestamp

/-!
# Roles and their grants

A role grants menus, and on each menu some of its actions and resources by their codes.
-/

namespace AccessAdmin

/-- One menu granted to a role, with the granted codes. -/
structure Grant where
  roleId : String
  menuId : String
  actions : List String
  resources : List String
deriving DecidableEq, Repr

/-- A role. -/
structure Role where
  id : String
  name : String
  sequence : Int
  memo : String
  creator : String
  createdAt : Timestamp
  updatedAt : Timestamp
  rowId : Int
  grants : List Grant
deriving DecidableEq, Repr

/-- The role as its own row, without its grants. -/
def Role.bare (r : Role) : Role := { r with grants := [] }

/-- The order of a listing: the higher sequence first, on a tie the newer row. -/
def Role.listedBefore (a b : Role) : Bool :=
  (compare b.sequence a.sequence).then (compare b.rowId a.rowId) != .gt

/-- A grant as a caller describes it. -/
structure GrantInput where
  menuId : String
  actions : List String := []
  resources : List String := []
deriving DecidableEq, Repr

/-- What a caller says of a role. -/
structure RoleInput where
  name : String
  sequence : Int := 0
  memo : String := ""
  grants : List GrantInput := []
deriving DecidableEq, Repr

/-- The described grants as rows of role `id`. -/
def RoleInput.grantsFor (input : RoleInput) (id : String) : List Grant :=
  input.grants.map fun g => ⟨id, g.menuId, g.actions, g.resources⟩

/-- Which roles a listing shows; a part that is absent admits every role. -/
structure RoleFilter where
  ids : Option (List String) := none
  name : Option String := none
  likeName : Option String := none
  /-- Admits the roles assigned to this user. -/
  userId : Option String := none
deriving DecidableEq, Repr

namespace RoleFilter

/-- The role with a given name. -/
def named (name : String) : RoleFilter := { name := some name }

/-- The roles with one of the given ids. -/
def withIds (ids : List String) : RoleFilter := { ids := some ids }

/-- Whether a filter admits a role by its own row; assignments are looked at by the store. -/
def admits (f : RoleFilter) (r : Role) : Bool :=
  f.ids.all (·.contains r.id) && f.name.all (r.name == ·) && f.likeName.all (Text.contains r.name)

end RoleFilter

end AccessAdmin
