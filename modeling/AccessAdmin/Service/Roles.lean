import AccessAdmin.Service.Menus

/-!
# Maintaining roles

Creates, updates and deletes roles together with their grants. A grant names a stored menu at the
time it is made. The role is projected after the commit.
-/

namespace AccessAdmin.Roles

/-! ## Checking the input -/

/-- Why a description of a role is refused, if it is. -/
def fault? (input : RoleInput) : Option String :=
  if Text.isAllBlank input.name then some "role name is required"
  else
    match firstDuplicate (input.grants.map GrantInput.menuId) with
    | some id => some s!"menu {id} granted twice"
    | none =>
      input.grants.findSome? fun g =>
        (Menus.firstUnstorable (g.actions ++ g.resources)).map fun code =>
          "invalid code " ++ Text.quoted code ++ " in grant on menu " ++ g.menuId

/-- Refuses a description that has a fault. -/
def validate (input : RoleInput) : Service Unit :=
  match fault? input with
  | none => pure ()
  | some text => Service.refuse (.validation text)

/-- Refuses a name that another role has. -/
def ensureNameFree (s : Session) (name : String) (own : Option String) : Service Unit := do
  let named := (← s.ask (.queryRoles (.named name) none)).data
  if named.any fun r => some r.id != own then
    Service.refuse (.validation s!"role name {name} already exists")

/-- Refuses grants of menus that are not stored. -/
def ensureMenusExist (s : Session) (input : RoleInput) : Service Unit := do
  let wanted := input.grants.map GrantInput.menuId
  let found ← Menus.withIds s wanted
  match wanted.find? fun id => !found.any (·.id == id) with
  | some id => Service.refuse (.notFound s!"menu {id} not found")
  | none => return

/-! ## Reading -/

/-- The stored roles with one of some ids; without ids nothing is asked. -/
def withIds (s : Session) (ids : List String) : Service (List Role) := do
  if ids.isEmpty then
    return []
  else
    return (← s.ask (.queryRoles (.withIds ids) none)).data

/-- Loads the grants of some roles. -/
def attachGrants (s : Session) (roles : List Role) : Service (List Role) := do
  if roles.isEmpty then
    return roles
  else
    return distribute Role.id Grant.roleId (fun r rows => { r with grants := rows })
      (← s.ask (.listRoleMenus (roles.map Role.id))) roles

/-- One role. -/
def get (ctx : Context) (id : String) (options : ListingOptions) : Service Role :=
  Service.session fun s => do
    match ← ctx.bounded (s.ask (.getRole id)) with
    | none => Service.refuse (.notFound s!"role {id} not found")
    | some role =>
      if options.grants then
        let roles ← ctx.bounded (attachGrants s [role])
        return roles.headD role
      else return role

/-- A listing of roles. -/
def query (ctx : Context) (filter : RoleFilter) (options : ListingOptions) :
    Service (Listing Role) :=
  Service.session fun s => do
    let found ← ctx.bounded (s.ask (.queryRoles filter options.pagination))
    if options.grants then
      let data ← ctx.bounded (attachGrants s found.data)
      return ⟨data, found.page⟩
    else return found

/-- Every role without its grants, to choose from. -/
def select (ctx : Context) : Service (List Role) := do
  return (← query ctx {} {}).data

/-! ## Writing -/

/-- Brings the engine up to date with a role after a commit. -/
def project (s : Session) (id : String) : Service Unit :=
  Projecting.afterCommit (discard (Projection.role s id))

/-- Inserts a role with its grants. -/
def insert (s : Session) (actor : String) (input : RoleInput) : Service Role := do
  ensureNameFree s input.name none
  ensureMenusExist s input
  let id ← Service.perform (.freshId s.id .role)
  let now ← Service.perform .readClock
  let role : Role :=
    { id := id
      name := input.name
      sequence := input.sequence
      memo := input.memo
      creator := actor
      createdAt := now
      updatedAt := now
      rowId := 0
      grants := input.grantsFor id }
  s.change (.createRole role)
  s.changeAll (role.grants.map .createRoleMenu)
  return role

/-- Creates a role. -/
def create (ctx : Context) (input : RoleInput) : Service Role := do
  validate input
  Service.session fun s => do
    let role ← ctx.transaction s (insert s ctx.actor input)
    project s role.id
    return role

/-- Replaces the grants of a role. -/
def syncGrants (s : Session) (id : String) (input : RoleInput) : Service Unit := do
  let plan := Changeset.between Grant.menuId (← s.ask (.listRoleMenus [id])) (input.grantsFor id)
  s.changeAll (plan.delete.map fun g => .deleteRoleMenu id g.menuId)
  s.changeAll (plan.update.map .updateRoleMenu)
  s.changeAll (plan.create.map .createRoleMenu)

/-- Updates a stored role with its grants. -/
def applyUpdate (s : Session) (id : String) (input : RoleInput) : Service Role := do
  match ← s.ask (.getRole id) with
  | none => Service.refuse (.notFound s!"role {id} not found")
  | some old =>
    ensureNameFree s input.name (some id)
    ensureMenusExist s input
    syncGrants s id input
    let now ← Service.perform .readClock
    let role : Role :=
      { old with
        name := input.name
        sequence := input.sequence
        memo := input.memo
        updatedAt := now }
    s.change (.updateRole role)
    return { role with grants := input.grantsFor id }

/-- Updates a role. -/
def update (ctx : Context) (id : String) (input : RoleInput) : Service Role := do
  validate input
  Service.session fun s => do
    let role ← ctx.transaction s (applyUpdate s id input)
    project s role.id
    return role

/-- Removes a role with its grants and every assignment of it. -/
def remove (s : Session) (id : String) : Service Unit := do
  match ← s.ask (.getRole id) with
  | none => Service.refuse (.notFound s!"role {id} not found")
  | some _ =>
    s.change (.deleteRoleMenus id)
    s.change (.deleteRoleUsers id)
    s.change (.deleteRole id)

/-- Deletes a role and what the engine holds of it. -/
def delete (ctx : Context) (id : String) : Service Unit :=
  Service.session fun s => do
    ctx.transaction s (remove s id)
    Projecting.afterCommit (Projection.removeRole id)

end AccessAdmin.Roles
