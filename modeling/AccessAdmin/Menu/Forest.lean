import AccessAdmin.Menu.Basic

/-!
# The forest of a flat list of menus

A listing is put together to trees by the parent ids in it. A menu whose parent is not in the list
becomes a root, so a filtered listing still gives a forest; menus in or below a cycle of parents
are left out.
-/

namespace AccessAdmin

/-- A menu with the trees of its children. -/
inductive MenuTree where
  | node (menu : Menu) (children : List MenuTree)
deriving Repr

namespace MenuTree

/-- The menu at the root of the tree. -/
def menu : MenuTree → Menu
  | node m _ => m

/-- The trees below the root. -/
def children : MenuTree → List MenuTree
  | node _ ts => ts

end MenuTree

namespace Menu

/-- The order of a listing: the higher sequence first, on a tie the newer row. -/
def siblingOrder (a b : Menu) : Ordering :=
  (compare b.sequence a.sequence).then (compare b.rowId a.rowId)

/-- Whether `a` may stand before `b` in a listing. -/
def listedBefore (a b : Menu) : Bool := siblingOrder a b != .gt

/-- The menus in the order of a listing. -/
def inOrder (menus : List Menu) : List Menu := menus.mergeSort listedBefore

end Menu

namespace MenuTree

/-- Puts trees together from menus in listing order. A menu takes from the pool those that name
it as their parent and attaches them before the next menu of the list is visited. Every step takes
one menu away, so as many steps as there are menus suffice. Beside the trees stands what is left
of the pool. -/
def visit : Nat → List Menu → List Menu → List MenuTree × List Menu
  | _, [], pool => ([], pool)
  | 0, _ :: _, pool => ([], pool)
  | steps + 1, m :: rest, pool =>
    let own := pool.filter (·.parentId == m.id)
    let (below, pool) := visit steps own (pool.filter (·.parentId != m.id))
    let (trees, pool) := visit steps rest pool
    (node m below :: trees, pool)

/-- The forest of a flat list of menus. -/
def forest (menus : List Menu) : List MenuTree :=
  let sorted := Menu.inOrder menus
  let hangs (m : Menu) : Bool := !m.isRoot && sorted.any (·.id == m.parentId)
  (visit (menus.length + 1) (sorted.filter (!hangs ·)) (sorted.filter hangs)).1

end MenuTree

end AccessAdmin
