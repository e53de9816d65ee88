import AccessAdmin.Changeset
import AccessAdmin.Code
import AccessAdmin.Service.Projection
import AccessAdmin.Text.Blank
import AccessAdmin.Text.Quoted

/-!
# Maintaining menus

Creates, updates, moves, deletes and plants menus together with their actions and resources. Every
menu's path is its parent's path with the parent's id; a move changes the path of every descendant
in the same transaction. A menu with children is not deleted. The roles that grant a changed menu
are projected after the commit.
-/

namespace AccessAdmin

/-- Hands the owned rows out to their owners: the first owner of an id takes all its rows. -/
def distribute {α β : Type} (idOf : α → String) (ownerOf : β → String) (give : α → List β → α) :
    List β → List α → List α
  | _, [] => []
  | pool, x :: rest =>
    give x (pool.filter fun c => ownerOf c == idOf x) ::
      distribute idOf ownerOf give (pool.filter fun c => ownerOf c != idOf x) rest

namespace Menus

/-! ## Checking the input -/

/-- The first code of a list that cannot be stored. -/
def firstUnstorable (codes : List String) : Option String :=
  codes.find? (!Code.isStorable ·)

/-- Why a description of a menu is refused, if it is. -/
def fault? (f : MenuForm) : Option String :=
  let actions := f.actions.map ActionInput.code
  let resources := f.resources.map ResourceInput.code
  if Text.isAllBlank f.name then some "menu name is required"
  else
    match firstUnstorable actions, firstUnstorable resources,
      firstDuplicate actions, firstDuplicate resources with
    | some code, _, _, _ => some ("invalid action code " ++ Text.quoted code)
    | none, some code, _, _ => some ("invalid resource code " ++ Text.quoted code)
    | none, none, some code, _ => some ("duplicate action code " ++ code)
    | none, none, none, some code => some ("duplicate resource code " ++ code)
    | none, none, none, none => none

/-- Refuses a description that has a fault. -/
def validate (f : MenuForm) : Service Unit :=
  match fault? f with
  | none => pure ()
  | some text => Service.refuse (.validation text)

/-! ## Reading -/

/-- Loads the actions of some menus. -/
def attachActions (s : Session) (menus : List Menu) : Service (List Menu) := do
  return distribute Menu.id MenuAction.menuId (fun m rows => { m with actions := rows })
    (← s.ask (.listMenuActions (menus.map Menu.id))) menus

/-- Loads the resources of some menus. -/
def attachResources (s : Session) (menus : List Menu) : Service (List Menu) := do
  return distribute Menu.id MenuResource.menuId (fun m rows => { m with resources := rows })
    (← s.ask (.listMenuResources (menus.map Menu.id))) menus

/-- Loads the actions and resources of some menus, as far as they are asked for. -/
def hydrate (s : Session) (menus : List Menu) (options : ListingOptions) : Service (List Menu) := do
  if menus.isEmpty then
    return menus
  else
    let menus ← if options.actions then attachActions s menus else pure menus
    if options.resources then attachResources s menus else pure menus

/-- The stored menus with one of some ids; without ids nothing is asked. -/
def withIds (s : Session) (ids : List String) : Service (List Menu) := do
  if ids.isEmpty then
    return []
  else
    return (← s.ask (.queryMenus (.withIds ids) none)).data

/-- One menu. -/
def get (ctx : Context) (id : String) (options : ListingOptions) : Service Menu :=
  Service.session fun s => do
    match ← ctx.bounded (s.ask (.getMenu id)) with
    | none => Service.refuse (.notFound s!"menu {id} not found")
    | some menu =>
      let menus ← ctx.bounded (hydrate s [menu] options)
      return menus.headD menu

/-- A listing of menus. -/
def query (ctx : Context) (filter : MenuFilter) (options : ListingOptions) :
    Service (Listing Menu) :=
  Service.session fun s => do
    let found ← ctx.bounded (s.ask (.queryMenus filter options.pagination))
    let data ← ctx.bounded (hydrate s found.data options)
    return ⟨data, found.page⟩

/-- The menus that a filter admits as a forest. -/
def tree (ctx : Context) (filter : MenuFilter) (options : ListingOptions) :
    Service (List MenuTree) := do
  let found ← query ctx filter { options with pagination := none }
  return MenuTree.forest found.data

/-- Every menu that is not hidden, with its actions: what the root user sees. -/
def visibleTree (ctx : Context) : Service (List MenuTree) :=
  tree ctx { hidden := some false } { actions := true }

/-- The user of an operation on the caller's own behalf; unknown and disabled users are refused. -/
def activeUser (ctx : Context) (s : Session) (id : String) : Service User := do
  match ← ctx.bounded (s.ask (.getUser id)) with
  | none => Service.refuse (.forbidden s!"unknown user {id}")
  | some user =>
    if user.isEnabled then return user
    else Service.refuse (.forbidden "user is disabled")

/-- The action codes granted on a menu by some grants. -/
def grantedActions (grants : List Grant) (menuId : String) : List String :=
  (grants.filter (·.menuId == menuId)).flatMap Grant.actions

/-- The menus that a user may navigate: the granted ones and their ancestors, each with the actions
granted on that very menu. -/
def grantedMenus (ctx : Context) (s : Session) (userId : String) : Service (List Menu) := do
  let user ← activeUser ctx s userId
  let roleIds := (← s.ask (.listUserRoles [user.id])).map Assignment.roleId
  if roleIds.isEmpty then
    Service.refuse (.forbidden "user has no roles")
  else
    let grants ← s.ask (.listRoleMenus roleIds)
    let granted := (grants.map Grant.menuId).eraseDups
    let found ← withIds s granted
    if found.isEmpty then
      Service.refuse (.forbidden "user has no menus")
    else
      let ids := (found.flatMap fun m : Menu => m.id :: m.parentPath.ids).eraseDups
      let menus ← hydrate s (← withIds s ids) { actions := true }
      return menus.map fun m =>
        { m with actions := m.actions.filter fun a => (grantedActions grants m.id).contains a.code }

/-- The forest that a user may navigate. -/
def userTree (ctx : Context) (userId : String) : Service (List MenuTree) :=
  Service.session fun s => do
    let menus ← ctx.bounded (grantedMenus ctx s userId)
    return MenuTree.forest menus

/-! ## Writing -/

/-- The path of a menu under a parent, the root path when there is none. -/
def pathUnder (s : Session) (parentId : String) : Service AncestorPath := do
  if parentId.isEmpty then
    return .root
  else
    match ← s.ask (.getMenu parentId) with
    | some parent => return parent.childPath
    | none => Service.refuse (.notFound s!"parent menu {parentId} not found")

/-- Inserts a menu with its actions and resources. -/
def insert (s : Session) (actor : String) (input : MenuInput) : Service Menu := do
  let path ← pathUnder s input.parentId
  let id ← Service.perform (.freshId s.id .menu)
  let now ← Service.perform .readClock
  let menu : Menu :=
    { id := id
      name := input.name
      sequence := input.sequence
      icon := input.icon
      router := input.router
      hidden := input.hidden
      parentId := input.parentId
      parentPath := path
      creator := actor
      createdAt := now
      updatedAt := now
      rowId := 0
      actions := input.actionsFor id
      resources := input.resourcesFor id }
  s.change (.createMenu menu)
  s.changeAll (menu.actions.map .createMenuAction)
  s.changeAll (menu.resources.map .createMenuResource)
  match ← s.ask (.getMenu id) with
  | some stored => return { menu with rowId := stored.rowId }
  | none => return menu

/-- Creates a menu. -/
def create (ctx : Context) (input : MenuInput) : Service Menu := do
  validate input.toMenuForm
  Service.session fun s => ctx.transaction s (insert s ctx.actor input)

/-- The changes that give every menu below `old` a path below `new`. -/
def rebases (descendants : List Menu) (old new : AncestorPath) : List Store.Write :=
  descendants.filterMap fun m =>
    (m.parentPath.rebase old new).map fun path => .updateMenuParentPath m.id path

/-- Gives every menu below `old` a path below `new`, and answers how many there are. -/
def rebaseSubtree (s : Session) (old new : AncestorPath) : Service Nat := do
  let below ← s.ask (.queryMenus (.subtree old) none)
  let writes := rebases below.data old new
  s.changeAll writes
  return writes.length

/-- Replaces the actions and resources of a menu. -/
def syncChildren (s : Session) (id : String) (f : MenuForm) : Service Unit := do
  let plan := Changeset.between MenuAction.code (← s.ask (.listMenuActions [id])) (f.actionsFor id)
  s.changeAll (plan.delete.map fun a => .deleteMenuAction id a.code)
  s.changeAll (plan.update.map .updateMenuAction)
  s.changeAll (plan.create.map .createMenuAction)
  let plan :=
    Changeset.between MenuResource.code (← s.ask (.listMenuResources [id])) (f.resourcesFor id)
  s.changeAll (plan.delete.map fun r => .deleteMenuResource id r.code)
  s.changeAll (plan.update.map .updateMenuResource)
  s.changeAll (plan.create.map .createMenuResource)

/-- The place of a menu after an update: its parent and its path. A new parent may not lie below
the menu; the paths of the menus below move with it. -/
def move (s : Session) (id : String) (old : Menu) (parentId : String) :
    Service (String × AncestorPath) := do
  if parentId = old.parentId then
    return (old.parentId, old.parentPath)
  else
    let path ← pathUnder s parentId
    if path.startsWith old.childPath then
      Service.refuse (.validation s!"menu {id} cannot move under its own descendant")
    else
      let _ ← rebaseSubtree s old.childPath (path.child id)
      Service.perform (.count .reparented)
      return (parentId, path)

/-- Updates a stored menu with its actions and resources. -/
def applyUpdate (s : Session) (id : String) (input : MenuInput) : Service Menu := do
  match ← s.ask (.getMenu id) with
  | none => Service.refuse (.notFound s!"menu {id} not found")
  | some old =>
    let now ← Service.perform .readClock
    let (parentId, path) ← move s id old input.parentId
    let menu : Menu :=
      { old with
        name := input.name
        sequence := input.sequence
        icon := input.icon
        router := input.router
        hidden := input.hidden
        parentId := parentId
        parentPath := path
        updatedAt := now }
    syncChildren s id input.toMenuForm
    s.change (.updateMenu menu)
    return { menu with actions := input.actionsFor id, resources := input.resourcesFor id }

/-- Updates a menu and projects the roles that grant it. -/
def update (ctx : Context) (id : String) (input : MenuInput) : Service Menu := do
  if input.parentId = id then
    Service.refuse (.validation "menu cannot be its own parent")
  else
    validate input.toMenuForm
    Service.session fun s => do
      let menu ← ctx.transaction s (applyUpdate s id input)
      Projecting.afterCommit (discard (Projection.menuGrantees s menu.id))
      return menu

/-- Removes a menu without children, and answers which roles granted it. -/
def remove (s : Session) (id : String) : Service (List String) := do
  match ← s.ask (.getMenu id) with
  | none => Service.refuse (.notFound s!"menu {id} not found")
  | some _ =>
    let children ← s.ask (.queryMenus (.childrenOf id) (some .all))
    let count := (children.page.map PageInfo.total).getD 0
    if 0 < count then
      Service.refuse (.validation s!"menu {id} has {count} child menus and cannot be deleted")
    else
      let granting ← s.ask (.rolesGrantingMenu id)
      s.change (.deleteMenuActions id)
      s.change (.deleteMenuResources id)
      s.change (.deleteMenu id)
      return granting

/-- Deletes a menu and projects the roles that granted it. -/
def delete (ctx : Context) (id : String) : Service Unit :=
  Service.session fun s => do
    let granting ← ctx.transaction s (remove s id)
    Projecting.afterCommit (Projecting.forAll granting fun role => discard (Projection.role s role))

/-- Plants seeds below a parent, each before its children and those before the next seed, and
answers how many menus were created. -/
def plant (s : Session) (actor parentId : String) : List MenuSeed → Service Nat
  | [] => pure 0
  | .node form children :: rest => do
    validate form
    let menu ← insert s actor (form.under parentId)
    let below ← plant s actor menu.id children
    let beside ← plant s actor parentId rest
    return 1 + below + beside

/-- Plants a forest of seeds into an empty table and answers how many menus were created; a table
with menus is left as it is. -/
def seed (ctx : Context) (forest : List MenuSeed) : Service Nat :=
  Service.session fun s =>
    ctx.transaction s do
      let existing ← s.ask (.queryMenus {} (some ⟨1, 1⟩))
      if 0 < (existing.page.map PageInfo.total).getD 0 then
        return 0
      else
        plant s ctx.actor "" forest

end Menus

end AccessAdmin
