import AccessAdmin.AncestorPath
import AccessAdmin.Text.Search
import AccessAdmin.Timestamp

/-!
# Menus

A menu is a node of the navigation tree. It owns actions, which an interface shows or hides, and
resources, which name a request method and a path and so can become permissions.
-/

namespace AccessAdmin

/-- An action of a menu. -/
structure MenuAction where
  menuId : String
  code : String
  name : String
deriving DecidableEq, Repr

/-- A resource of a menu. -/
structure MenuResource where
  menuId : String
  code : String
  name : String
  method : String
  path : String
deriving DecidableEq, Repr

/-- Only a resource that names both a method and a path becomes a permission. -/
def MenuResource.isEnforceable (r : MenuResource) : Bool :=
  !r.method.isEmpty && !r.path.isEmpty

/-- A node of the menu tree. The parent id is empty for a root, and `rowId` counts the insertions
of all kinds of rows. -/
structure Menu where
  id : String
  name : String
  sequence : Int
  icon : String
  router : String
  hidden : Bool
  parentId : String
  parentPath : AncestorPath
  creator : String
  createdAt : Timestamp
  updatedAt : Timestamp
  rowId : Int
  actions : List MenuAction
  resources : List MenuResource
deriving DecidableEq, Repr

namespace Menu

/-- Whether the menu has no parent. -/
def isRoot (m : Menu) : Bool := m.parentId.isEmpty

/-- The path that the menu's children carry. -/
def childPath (m : Menu) : AncestorPath := m.parentPath.child m.id

/-- The menu as its own row, without what it owns. -/
def bare (m : Menu) : Menu := { m with actions := [], resources := [] }

end Menu

/-- An action as a caller describes it. -/
structure ActionInput where
  code : String
  name : String
deriving DecidableEq, Repr

/-- A resource as a caller describes it. -/
structure ResourceInput where
  code : String
  name : String
  method : String := ""
  path : String := ""
deriving DecidableEq, Repr

/-- What a caller says of a menu, apart from where it hangs. -/
structure MenuForm where
  name : String
  sequence : Int := 0
  icon : String := ""
  router : String := ""
  hidden : Bool := false
  actions : List ActionInput := []
  resources : List ResourceInput := []
deriving DecidableEq, Repr

/-- What a caller says of a menu to be created or updated. -/
structure MenuInput extends MenuForm where
  parentId : String := ""
deriving DecidableEq, Repr

namespace MenuForm

/-- The described actions as rows of menu `id`. -/
def actionsFor (f : MenuForm) (id : String) : List MenuAction :=
  f.actions.map fun a => ⟨id, a.code, a.name⟩

/-- The described resources as rows of menu `id`. -/
def resourcesFor (f : MenuForm) (id : String) : List MenuResource :=
  f.resources.map fun r => ⟨id, r.code, r.name, r.method, r.path⟩

/-- The described menu under a parent. -/
def under (f : MenuForm) (parentId : String) : MenuInput := { f with parentId := parentId }

end MenuForm

/-- A tree of menus to be planted into an empty table. -/
inductive MenuSeed where
  | node (form : MenuForm) (children : List MenuSeed)

namespace MenuSeed

/-- What the seed says of its own menu. -/
def form : MenuSeed → MenuForm
  | node f _ => f

/-- The seeds of the menu's children. -/
def children : MenuSeed → List MenuSeed
  | node _ cs => cs

end MenuSeed

/-- Which menus a listing shows; a part that is absent admits every menu. -/
structure MenuFilter where
  ids : Option (List String) := none
  likeName : Option String := none
  /-- The empty text admits the roots. -/
  parentId : Option String := none
  /-- Admits the menus whose path equals or extends this one. -/
  pathStart : Option AncestorPath := none
  hidden : Option Bool := none
deriving DecidableEq, Repr

namespace MenuFilter

/-- The menus directly below `id`. -/
def childrenOf (id : String) : MenuFilter := { parentId := some id }

/-- The menus whose path begins with `path`. -/
def subtree (path : AncestorPath) : MenuFilter := { pathStart := some path }

/-- The menus with one of the given ids. -/
def withIds (ids : List String) : MenuFilter := { ids := some ids }

/-- Whether a filter admits a menu. -/
def admits (f : MenuFilter) (m : Menu) : Bool :=
  f.ids.all (·.contains m.id) && f.likeName.all (Text.contains m.name) &&
    f.parentId.all (m.parentId == ·) && f.pathStart.all m.parentPath.startsWith &&
    f.hidden.all (m.hidden == ·)

end MenuFilter

end AccessAdmin
