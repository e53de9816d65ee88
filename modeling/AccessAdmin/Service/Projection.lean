import AccessAdmin.Service.Context

/-!
# Projecting assignments into the engine

What a role may do follows from its grants and the resources of the granted menus; what roles a
user has follows from its assignments, if the user is enabled. A projection derives the rules of one
subject from the store and puts them in the place of those the engine holds.

* `roleRules`: the paths and methods that the grants of a role come to.
* `Projection.role`, `Projection.user`: one subject.
* `Projection.all`: every subject, and the removal of those the store does not know.
-/

namespace AccessAdmin

/-- A program that may end with a projection error. -/
abbrev Projecting (α : Type) : Type := ExceptT ProjectionError Program α

namespace Projecting

variable {α : Type}

/-- A question to the store. -/
def ask (s : Session) (r : Store.Read) : Projecting r.Reply :=
  ExceptT.mk do
    match ← s.call (.read r) with
    | .ok a => return .ok a
    | .error e => return .error (.store e)

/-- A call on the engine that may be refused. -/
def engine (p : Program (Except Policy.EngineError Bool)) : Projecting Unit :=
  ExceptT.mk do
    match ← p with
    | .ok _ => return .ok ()
    | .error e => return .error (.engine e)

/-- Calls on the engine for the items of a list, one after the other. -/
def forAll (items : List α) (act : α → Projecting Unit) : Projecting Unit :=
  match items with
  | [] => pure ()
  | x :: rest => do
    act x
    forAll rest act

/-- Does something for the items of a list, one after the other, and adds up the numbers. -/
def total (items : List α) (act : α → Projecting Nat) : Projecting Nat :=
  match items with
  | [] => pure 0
  | x :: rest => do
    let n ← act x
    let m ← total rest act
    return n + m

/-- Counts how a projection of one subject came out. -/
def counted (subject : Subject) (work : Projecting α) : Projecting α :=
  ExceptT.mk do
    let outcome ← work.run
    Program.perform (.count (.projected subject outcome.toBool))
    return outcome

/-- A projection after a commit: its failure tells the caller that the change is stored. -/
def afterCommit (work : Projecting α) : Service Unit :=
  ExceptT.mk do
    match ← work.run with
    | .ok _ => return .ok ()
    | .error e => return .error (.policy e)

end Projecting

/-- A sorted list without repetitions. -/
def sortedDistinct {α : Type} [DecidableEq α] (before : α → α → Bool) (xs : List α) : List α :=
  xs.eraseDups.mergeSort before

/-- The order of rules: by path, then method. -/
def ruleBefore (a b : String × String) : Bool :=
  (compare a.1 b.1).then (compare a.2 b.2) != .gt

/-- The paths and methods that the grants of a role come to, sorted and without repetitions: those
of every resource that is granted by its code on its menu and names both. -/
def roleRules (grants : List Grant) (resources : List MenuResource) : List (String × String) :=
  sortedDistinct ruleBefore <|
    grants.flatMap fun g =>
      g.resources.flatMap fun code =>
        (resources.filter fun r => r.menuId == g.menuId && r.code == code && r.isEnforceable).map
          fun r => (r.path, r.method)

namespace Projection

/-- Puts the permissions that a role's grants come to in the place of those the engine holds, and
answers their number. -/
def role (s : Session) (id : String) : Projecting Nat :=
  Projecting.counted .role do
    let grants ← Projecting.ask s (.listRoleMenus [id])
    let menuIds := grants.map Grant.menuId
    let resources ←
      if menuIds.isEmpty then pure [] else Projecting.ask s (.listMenuResources menuIds)
    let rules := roleRules grants resources
    Projecting.engine (Program.perform (.policy (.removePermissions id)))
    Projecting.forAll rules fun r =>
      Projecting.engine (Program.perform (.policy (.addPermission id r.1 r.2)))
    return rules.length

/-- Puts a user's assignments in the place of the memberships the engine holds, and answers their
number. -/
def user (s : Session) (id : String) : Projecting Nat :=
  Projecting.counted .user do
    let edges ← Projecting.ask s (.listUserRoles [id])
    Projecting.engine (Program.perform (.policy (.removeMemberships id)))
    Projecting.forAll edges fun a =>
      Projecting.engine (Program.perform (.policy (.addMembership id a.roleId)))
    return edges.length

/-- Projects every role that grants a menu, and answers how many grants there are. -/
def menuGrantees (s : Session) (menuId : String) : Projecting Nat := do
  let roleIds ← Projecting.ask s (.rolesGrantingMenu menuId)
  Projecting.forAll roleIds fun id => discard (role s id)
  return roleIds.length

/-- Removes what the engine holds of a role: its permissions and the memberships in it. -/
def removeRole (id : String) : Projecting Unit := do
  Projecting.engine (Program.perform (.policy (.removePermissions id)))
  Projecting.engine (Program.perform (.policy (.removeRoleMemberships id)))

/-- Removes what the engine holds of a user: its memberships. -/
def removeUser (id : String) : Projecting Unit :=
  Projecting.engine (Program.perform (.policy (.removeMemberships id)))

/-- What a projection of everything did. -/
structure Summary where
  roles : Nat
  users : Nat
  permissions : Nat
  memberships : Nat
  /-- Subjects that the engine held and the store does not know. -/
  pruned : Nat
deriving DecidableEq, Repr

/-- The order of names. -/
def nameBefore (a b : String) : Bool := compare a b != .gt

/-- Projects every role and every enabled user, then removes the rules of all other subjects. -/
def all (s : Session) : Projecting Summary := do
  let roles := (← Projecting.ask s (.queryRoles {} none)).data
  let permissions ← Projecting.total roles fun r => role s r.id
  let users := (← Projecting.ask s (.queryUsers .enabled none)).data
  let memberships ← Projecting.total users fun u => user s u.id
  let held ← (Program.perform (.policy .snapshot) : Program _)
  let staleRoles := sortedDistinct nameBefore <|
    (held.permissions.map (·.subject)).filter fun id => !roles.any (·.id == id)
  let staleUsers := sortedDistinct nameBefore <|
    (held.memberships.map (·.user)).filter fun id => !users.any (·.id == id)
  Projecting.forAll staleRoles fun id =>
    Projecting.engine (Program.perform (.policy (.removePermissions id)))
  Projecting.forAll staleUsers fun id =>
    Projecting.engine (Program.perform (.policy (.removeMemberships id)))
  return ⟨roles.length, users.length, permissions, memberships,
    staleRoles.length + staleUsers.length⟩

/-- How late a tick may come, in milliseconds, without moving the ticks after it. -/
def tickTolerance : Nat := 5

/-- Projects everything at every tick. Ticks come at equal distances; one that is missed because a
pass took too long comes at once, and the next ones are counted from it. A pass that fails is left
to the next one. -/
def reconcileFrom (every : Nat) : Nat → Nat → Program Unit
  | 0, _ => pure ()
  | passes + 1, due => do
    Program.perform (.wait (due - (← Program.perform .elapsed)))
    let now ← Program.perform .elapsed
    let next := (if now ≤ due + tickTolerance then due else now) + every
    let _ ← (withSession ProjectionError.store all).run
    reconcileFrom every passes next

/-- Projects everything at ticks of a distance for some time; the first pass comes after one
distance. -/
def reconcile (every duration : Nat) : Program Unit := do
  let start ← Program.perform .elapsed
  let _ ← (reconcileFrom every (duration / every + 3) (start + every)).within (start + duration)
  return ()

end Projection

end AccessAdmin
