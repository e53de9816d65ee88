import AccessAdmin.Policy.Engine

/-!
# Calls on the engine

The engine is shared, and each call on it is one step. A caller that removes and then adds makes
two calls, between which other calls may come.
-/

namespace AccessAdmin.Policy

/-- A call on the engine. -/
inductive Call where
  | addPermission (subject path method : String)
  | removePermissions (subject : String)
  | addMembership (user role : String)
  | removeMemberships (user : String)
  | removeRoleMemberships (role : String)
  | evaluate (subject path method : String)
  | permissionsFor (subject : String)
  | membershipsFor (user : String)
  | snapshot
deriving DecidableEq, Repr

/-- The type of the answer to a call. A decision is missing when it comes to a pattern that cannot
be compiled. -/
abbrev Call.Reply : Call → Type
  | evaluate _ _ _ => Option Bool
  | permissionsFor _ => List Permission
  | membershipsFor _ => List Membership
  | snapshot => Snapshot
  | _ => Except EngineError Bool

/-- One call on the engine, where patterns are read in a given way. -/
def Engine.perform (e : Engine) (reads : PathPattern.Reader) : (c : Call) → c.Reply × Engine
  | .addPermission subject path method => e.addPermission subject path method
  | .removePermissions subject => e.removePermissions subject
  | .addMembership user role => e.addMembership user role
  | .removeMemberships user => e.removeMemberships user
  | .removeRoleMemberships role => e.removeRoleMemberships role
  | .evaluate subject path method => (e.evaluate reads subject path method, e)
  | .permissionsFor subject => (e.permissionsFor subject, e)
  | .membershipsFor user => (e.membershipsFor user, e)
  | .snapshot => (e.snapshot, e)

end AccessAdmin.Policy
