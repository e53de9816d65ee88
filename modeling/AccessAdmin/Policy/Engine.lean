import AccessAdmin.Policy.PathPattern
import AccessAdmin.Policy.RoleGraph
import AccessAdmin.Text.Quoted

/-!
# The policy engine

The engine holds permissions (a subject may call a method on the paths of a pattern) and
memberships (a user inherits from a role) and decides on requests. It is derived state: what it
holds can always be computed anew from the stored grants and assignments. What patterns cover is
told by a reader that every decision is given.

* `Engine.evaluate`: the decision, or `none` when it comes to a pattern that cannot be compiled.
* `Engine.snapshot`: everything the engine holds, sorted.
-/

namespace AccessAdmin.Policy

/-- A subject may call a method on the paths of a pattern. -/
structure Permission where
  subject : String
  path : String
  method : String
deriving DecidableEq, Repr

/-- A user inherits the permissions of a role. -/
structure Membership where
  user : String
  role : String
deriving DecidableEq, Repr

/-- The order of a snapshot: by subject, then path, then method. -/
def Permission.listedBefore (a b : Permission) : Bool :=
  (compare a.subject b.subject).then ((compare a.path b.path).then (compare a.method b.method)) != .gt

/-- The order of a snapshot: by user, then role. -/
def Membership.listedBefore (a b : Membership) : Bool :=
  (compare a.user b.user).then (compare a.role b.role) != .gt

/-- Everything an engine holds. -/
structure Snapshot where
  permissions : List Permission
  memberships : List Membership
deriving DecidableEq, Repr

/-- Why the engine refuses. -/
inductive EngineError where
  /-- The rule language itself is broken. -/
  | model (text : String)
  /-- The role graph does not know the names of a membership that is to be removed. -/
  | unknownNames (user role : String)
  /-- A permission lacks a part. -/
  | incompletePermission (subject path method : String)
  /-- A membership lacks a part. -/
  | incompleteMembership (user role : String)
  /-- A rule is refused for another reason. -/
  | invalidRule (text : String)
deriving DecidableEq, Repr

namespace EngineError

/-- The wording of a refusal. -/
def message : EngineError → String
  | model text => "invalid model: " ++ text
  | unknownNames user role =>
    "enforcer error: Casbin Role Manager Error: `NotFound(" ++
      Text.quoted (user ++ " OR " ++ role) ++ ")`"
  | incompletePermission subject path method =>
    "invalid rule: permission requires subject, path and method: (" ++
      subject ++ ", " ++ path ++ ", " ++ method ++ ")"
  | incompleteMembership user role =>
    "invalid rule: membership requires user and role: (" ++ user ++ ", " ++ role ++ ")"
  | invalidRule text => "invalid rule: " ++ text

end EngineError

/-- The rules in the order they came in, and the graph that follows the memberships. -/
structure Engine where
  permissions : List Permission := []
  memberships : List Membership := []
  graph : RoleGraph := {}
deriving DecidableEq, Repr

namespace Engine

/-- Adds a permission; `false` when it was there before. -/
def addPermission (e : Engine) (subject path method : String) : Except EngineError Bool × Engine :=
  if subject.isEmpty || path.isEmpty || method.isEmpty then
    (.error (.incompletePermission subject path method), e)
  else if e.permissions.contains ⟨subject, path, method⟩ then (.ok false, e)
  else (.ok true, { e with permissions := e.permissions ++ [⟨subject, path, method⟩] })

/-- Whether a value meets a filter field; the empty filter is met by every value. -/
def fieldMatches (filter value : String) : Bool :=
  filter.isEmpty || value == filter

/-- Removes the permissions of a subject, all of them for the empty name; `false` when there are
none. -/
def removePermissions (e : Engine) (subject : String) : Except EngineError Bool × Engine :=
  (.ok (e.permissions.any (fieldMatches subject ·.subject)),
    { e with permissions := e.permissions.filter (!fieldMatches subject ·.subject) })

/-- Adds a membership; `false` when it was there before. -/
def addMembership (e : Engine) (user role : String) : Except EngineError Bool × Engine :=
  if user.isEmpty || role.isEmpty then (.error (.incompleteMembership user role), e)
  else if e.memberships.contains ⟨user, role⟩ then (.ok false, e)
  else
    (.ok true, { e with memberships := e.memberships ++ [⟨user, role⟩], graph := e.graph.link user role })

/-- Takes memberships off the graph one by one, up to the first whose names it does not know. -/
def unlinkAll (g : RoleGraph) : List Membership → Except EngineError Unit × RoleGraph
  | [] => (.ok (), g)
  | m :: rest =>
    match g.unlink m.user m.role with
    | none => (.error (.unknownNames m.user m.role), g)
    | some g => unlinkAll g rest

/-- Removes the memberships that meet a test. The graph is rebuilt from those that are left,
unless taking the removed ones off it failed. -/
def removeMembershipsWhere (e : Engine) (test : Membership → Bool) :
    Except EngineError Bool × Engine :=
  let gone := e.memberships.filter test
  let left := e.memberships.filter (!test ·)
  if gone.isEmpty then (.ok false, e)
  else
    match unlinkAll e.graph gone with
    | (.error err, g) => (.error err, { e with memberships := left, graph := g })
    | (.ok _, _) =>
      (.ok true,
        { e with
          memberships := left
          graph := RoleGraph.ofMemberships (left.map fun m => (m.user, m.role)) })

/-- Removes the memberships of a user, all of them for the empty name. -/
def removeMemberships (e : Engine) (user : String) : Except EngineError Bool × Engine :=
  e.removeMembershipsWhere (fieldMatches user ·.user)

/-- Removes the memberships in a role, all of them for the empty name. -/
def removeRoleMemberships (e : Engine) (role : String) : Except EngineError Bool × Engine :=
  e.removeMembershipsWhere (fieldMatches role ·.role)

/-- Whether one permission allows a request; its pattern is looked at only if its subject is the
requesting one or one it inherits from. -/
def permits (e : Engine) (reads : PathPattern.Reader) (subject path method : String)
    (p : Permission) : Option Bool :=
  if e.graph.reaches subject p.subject then
    (PathPattern.covers? reads p.path path).map (· && method == p.method)
  else some false

/-- Goes through the permissions up to the first that allows the request. -/
def firstMatch (e : Engine) (reads : PathPattern.Reader) (subject path method : String) :
    List Permission → Option Bool
  | [] => some false
  | p :: rest =>
    match e.permits reads subject path method p with
    | none => none
    | some true => some true
    | some false => firstMatch e reads subject path method rest

/-- Decides whether a subject may call a method on a path; `none` when the decision comes to a
pattern that cannot be compiled. An engine without permissions decides as if it held one whose
three parts are empty. -/
def evaluate (e : Engine) (reads : PathPattern.Reader) (subject path method : String) :
    Option Bool :=
  e.firstMatch reads subject path method
    (if e.permissions.isEmpty then [⟨"", "", ""⟩] else e.permissions)

/-- The permissions of a subject, of all subjects for the empty name, sorted. -/
def permissionsFor (e : Engine) (subject : String) : List Permission :=
  (e.permissions.filter (fieldMatches subject ·.subject)).mergeSort Permission.listedBefore

/-- The memberships of a user, of all users for the empty name, sorted. -/
def membershipsFor (e : Engine) (user : String) : List Membership :=
  (e.memberships.filter (fieldMatches user ·.user)).mergeSort Membership.listedBefore

/-- Everything the engine holds, sorted. -/
def snapshot (e : Engine) : Snapshot :=
  ⟨e.permissions.mergeSort Permission.listedBefore, e.memberships.mergeSort Membership.listedBefore⟩

end Engine

end AccessAdmin.Policy
