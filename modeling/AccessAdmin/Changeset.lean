/-!
# Replacing a keyed collection

A menu's actions and resources, a role's grants and a user's assignments are replaced as a whole.
A changeset says which old values go, which new values come, and which new values take the place
of an old one with the same key.
-/

namespace AccessAdmin

/-- What turns an old keyed collection into a new one. -/
structure Changeset (α : Type) where
  /-- New values whose key is not among the old ones. -/
  create : List α
  /-- Old values whose key is not among the new ones. -/
  delete : List α
  /-- New values whose key was there before. -/
  update : List α
deriving DecidableEq, Repr

namespace Changeset

variable {α κ : Type} [DecidableEq κ]

/-- The changeset from `old` to `new`, each part in the order of its source. -/
def between (key : α → κ) (old new : List α) : Changeset α where
  create := new.filter fun x => !(old.map key).contains (key x)
  delete := old.filter fun x => !(new.map key).contains (key x)
  update := new.filter fun x => (old.map key).contains (key x)

/-- Whether there is nothing to do. -/
def isEmpty (c : Changeset α) : Bool :=
  c.create.isEmpty && c.delete.isEmpty && c.update.isEmpty

end Changeset

/-- The first key that some earlier item of the list already has. -/
def firstDuplicate {κ : Type} [DecidableEq κ] (keys : List κ) : Option κ :=
  go [] keys
where
  go (seen : List κ) : List κ → Option κ
    | [] => none
    | k :: rest => if seen.contains k then some k else go (k :: seen) rest

end AccessAdmin
