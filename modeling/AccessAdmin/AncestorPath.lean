import AccessAdmin.Text.Separated

/-!
# Ancestor paths

A menu carries the ids of its ancestors, root first. The stored form joins them with `/`; the
empty text is the path of a root menu.

* `toStorage_ofStorage`: storing a parsed text gives the text back.
* `isSome_rebase`: a path can be rebased from exactly its own beginnings.
-/

namespace AccessAdmin

/-- The ids of a menu's ancestors, root first. -/
structure AncestorPath where
  ids : List String
deriving DecidableEq, Repr, Inhabited

namespace AncestorPath

/-- The path of a menu without a parent. -/
def root : AncestorPath := ⟨[]⟩

/-- Reads the stored form. -/
def ofStorage (raw : String) : AncestorPath :=
  if raw.toList = [] then root else ⟨Text.split '/' raw⟩

/-- The ids joined by `/`. -/
def toStorage (p : AncestorPath) : String :=
  Text.join '/' p.ids

/-- Whether this is the path of a root menu. -/
def isRoot (p : AncestorPath) : Bool :=
  p.ids.isEmpty

/-- How many ancestors there are. -/
def depth (p : AncestorPath) : Nat :=
  p.ids.length

/-- The path that the children of menu `id` at `p` carry. -/
def child (p : AncestorPath) (id : String) : AncestorPath :=
  ⟨p.ids ++ [id]⟩

/-- Whether `start` is a beginning of `p`, id by id: `a/bc` does not begin with `a/b`. -/
def startsWith (p start : AncestorPath) : Bool :=
  start.ids.isPrefixOf p.ids

/-- Replaces the beginning `old` by `new` and keeps every id after it. -/
def rebase (p old new : AncestorPath) : Option AncestorPath :=
  if p.startsWith old then some ⟨new.ids ++ p.ids.drop old.ids.length⟩ else none

theorem toStorage_ofStorage (raw : String) : (ofStorage raw).toStorage = raw := by
  unfold ofStorage toStorage
  split
  · rename_i h
    simp only [root, Text.join, List.map_nil, Text.joinWith]
    rw [← h, String.ofList_toList]
  · simp only [Text.join, Text.split, List.map_map]
    have h : String.toList ∘ String.ofList = id := by
      funext l
      simp
    rw [h, List.map_id, Text.joinWith_splitOn, String.ofList_toList]

theorem isSome_rebase (p old new : AncestorPath) :
    (p.rebase old new).isSome = p.startsWith old := by
  unfold rebase
  split <;> simp_all

end AncestorPath

end AccessAdmin
