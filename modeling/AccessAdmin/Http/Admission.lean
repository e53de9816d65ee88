import AccessAdmin.Http.Refusal
import AccessAdmin.Program
import AccessAdmin.Text.Search

/-!
# Admission of requests

Before a request reaches its endpoint it is decided whether the caller may make it. Some paths are
open to everyone, the root user may do everything, paths about the caller need a caller alone, and
for every other path the engine decides.

* `Gate.judge`: the decision on a request.
-/

namespace AccessAdmin.Http

/-- How requests are admitted. -/
structure Gate where
  rootUsername : String := "root"
  /-- Whether callers are checked at all. -/
  enforce : Bool := true
deriving DecidableEq, Repr

/-- What an evaluation comes to: a decision or an error, or `none` at a pattern that cannot be
compiled. -/
abbrev Evaluation : Type := Option (Except Policy.EngineError Bool)

/-- How a decision on a user, a path and a method is asked for. -/
abbrev Asking : Type := String → String → String → Program Evaluation

/-- Asks the engine. What it decides, it decides without an error. -/
def Asking.engine : Asking := fun user path method =>
  Option.map .ok <$> Program.perform (.policy (.evaluate user path method))

/-- What is decided on a request. -/
inductive Verdict where
  | admitted
  | refused (r : Refusal)
  /-- The decision came to a pattern that cannot be compiled. -/
  | stuck
deriving DecidableEq, Repr

namespace Gate

/-- Whether a path is open to everyone. -/
def isPublic (path : String) : Bool :=
  Text.startsWith path "/v1/system/" || path == "/v1/openapi.json" || Text.startsWith path "/docs"

/-- Whether a path is about the caller. -/
def isSelfService (path : String) : Bool := Text.startsWith path "/v1/current/"

/-- A verdict that is counted under a decision. -/
def counted (d : Decision) (v : Verdict) : Program Verdict := do
  Program.perform (.count (.decided d))
  return v

/-- Leaves the decision to an evaluation. -/
def consult (ask : Asking) (user path method : String) : Program Verdict := do
  match ← ask user path method with
  | none => return .stuck
  | some (.error _) => return .refused (.internal "authorization check failed")
  | some (.ok true) => counted .allow .admitted
  | some (.ok false) => counted .deny (.refused (.forbidden "permission denied"))

/-- Decides on a request by its method, its path and its header fields. -/
def judge (g : Gate) (ask : Asking) (method path : String) (headers : Headers) : Program Verdict :=
  if !g.enforce || isPublic path then return .admitted
  else
    match headers.identity with
    | none => counted .unauthenticated (.refused .noIdentity)
    | some user =>
      if user = g.rootUsername then counted .root .admitted
      else if isSelfService path then counted .self .admitted
      else consult ask user path method

end Gate

end AccessAdmin.Http
