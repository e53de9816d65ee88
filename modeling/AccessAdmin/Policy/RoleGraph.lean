/-!
# The role graph

Whether a subject inherits from a role is looked up in a graph that follows the memberships step by
step. A membership of a subject in itself leaves no trace in it, and a node that has come in stays
until the graph is rebuilt. The look-up is a breadth-first search that gives up after ten levels.

* `RoleGraph.reaches`: the look-up.
* `RoleGraph.unlink`: fails for names that are not in the graph.
-/

namespace AccessAdmin.Policy

/-- The names known to the graph, and its edges, the newest first. -/
structure RoleGraph where
  nodes : List String := []
  edges : List (String × String) := []
deriving DecidableEq, Repr

namespace RoleGraph

/-- Adds a name unless it is known. -/
def addNode (g : RoleGraph) (n : String) : RoleGraph :=
  if g.nodes.contains n then g else { g with nodes := n :: g.nodes }

/-- Adds an edge between two different names. -/
def link (g : RoleGraph) (user role : String) : RoleGraph :=
  if user = role then g
  else
    let g := (g.addNode user).addNode role
    if g.edges.contains (user, role) then g else { g with edges := (user, role) :: g.edges }

/-- Takes an edge away; both names have to be known, the edge need not be there. -/
def unlink (g : RoleGraph) (user role : String) : Option RoleGraph :=
  if g.nodes.contains user && g.nodes.contains role then
    some { g with edges := g.edges.filter (· != (user, role)) }
  else none

/-- The graph of a list of memberships. -/
def ofMemberships (edges : List (String × String)) : RoleGraph :=
  edges.foldl (fun g e => g.link e.1 e.2) {}

/-- The names one edge further, the newest edge first. -/
def successors (g : RoleGraph) (n : String) : List String :=
  (g.edges.filter (·.1 == n)).map Prod.snd

/-- The number of levels after which the search gives up. -/
def maxDepth : Nat := 10

/-- Breadth-first search for `goal`. The depth grows whenever the count of names that were queued
comes down to zero, so it is counted more slowly the more a level branches out. Every step takes
one name from the queue, and no name is queued twice. -/
def search (g : RoleGraph) (goal : String) : Nat → Nat → Nat → List String → List String → Bool
  | 0, _, _, _, _ => false
  | _ + 1, _, _, _, [] => false
  | steps + 1, depth, left, seen, n :: queue =>
    if maxDepth ≤ depth then false
    else if n = goal then true
    else
      let left := left - 1
      let depth := if left = 0 then depth + 1 else depth
      let fresh := (g.successors n).filter (!seen.contains ·)
      search g goal steps depth (left + fresh.length) (seen ++ fresh) (queue ++ fresh)

/-- Whether `user` is `role` or inherits from it. -/
def reaches (g : RoleGraph) (user role : String) : Bool :=
  user == role || g.search role (g.nodes.length + 2) 0 1 [user] [user]

end RoleGraph

end AccessAdmin.Policy
