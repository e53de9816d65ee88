/-!
# The policy in writing

What the engine decides, in the notation in which such policies are written down: a request and a
permission each have a subject, a path and a method; a membership relates two names; a request is
allowed if some permission matches it.
-/

namespace AccessAdmin.Policy

/-- The lines of the policy in writing. -/
def notationLines : List String :=
  ["", "[request_definition]", "r = sub, obj, act", "", "[policy_definition]", "p = sub, obj, act",
    "", "[role_definition]", "g = _, _", "", "[policy_effect]",
    "e = some(where (p.eft == allow))", "", "[matchers]",
    "m = (r.sub == p.sub || g(r.sub, p.sub)) && keyMatch2(r.obj, p.obj) && r.act == p.act"]

/-- The policy in writing. -/
def written : String := String.join (notationLines.map fun l => l ++ "\n")

end AccessAdmin.Policy
