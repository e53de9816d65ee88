/-!
# Counters

What the service counts: projections of a subject, moves of a menu to another parent, and decisions
on requests. Only a counter that was touched is reported.
-/

namespace AccessAdmin

/-- A kind of decision on a request. -/
inductive Decision where
  | unauthenticated
  | root
  | self
  | deny
  | allow
deriving DecidableEq, Repr

/-- The word for a decision. -/
def Decision.label : Decision → String
  | unauthenticated => "unauthenticated"
  | root => "root"
  | self => "self"
  | deny => "deny"
  | allow => "allow"

/-- The kind of subject that is projected. -/
inductive Subject where
  | role
  | user
deriving DecidableEq, Repr

/-- The word for a kind of subject. -/
def Subject.label : Subject → String
  | role => "role"
  | user => "user"

/-- Something that is counted. -/
inductive Event where
  | projected (subject : Subject) (ok : Bool)
  | reparented
  | decided (d : Decision)
deriving DecidableEq, Repr

namespace Event

/-- The name of the counter that an event belongs to. -/
def counter : Event → String
  | projected _ _ => "portcullis_policy_projections_total"
  | reparented => "portcullis_tree_reparents_total"
  | decided _ => "portcullis_authz_decisions_total"

/-- What the counter is described as. -/
def help : Event → String
  | projected _ _ => "Single-subject policy projections by subject kind and outcome"
  | reparented => "Menu nodes moved to a new parent"
  | decided _ => "Request authorization decisions"

/-- A label as it is written in a report. -/
def labelText (name value : String) : String :=
  name ++ "=\"" ++ value ++ "\""

/-- The labels of an event, between braces, or nothing. -/
def labels : Event → String
  | projected s ok =>
    "\x7b" ++ labelText "subject" s.label ++ "," ++
      labelText "outcome" (if ok then "ok" else "error") ++ "\x7d"
  | reparented => ""
  | decided d => "\x7b" ++ labelText "decision" d.label ++ "\x7d"

end Event

/-- How often each event came, in the order of their first coming. -/
structure Counters where
  counts : List (Event × Nat) := []
deriving DecidableEq, Repr

namespace Counters

/-- Counts an event once more. -/
def add (c : Counters) (e : Event) : Counters :=
  if c.counts.any (·.1 == e) then
    ⟨c.counts.map fun p => if p.1 = e then (e, p.2 + 1) else p⟩
  else ⟨c.counts ++ [(e, 1)]⟩

/-- One line for each counter that was touched, sorted. -/
def lines (c : Counters) : List String :=
  (c.counts.map fun p => p.1.counter ++ p.1.labels ++ " " ++ toString p.2).mergeSort
    fun a b => compare a b != .gt

/-- The lines of a full report, which also describes each counter and names its type. -/
def report (c : Counters) : List String :=
  let described := (c.counts.map Prod.fst).map fun e =>
    ["# HELP " ++ e.counter ++ " " ++ e.help, "# TYPE " ++ e.counter ++ " counter"]
  (c.lines ++ described.flatten.eraseDups).mergeSort fun a b => compare a b != .gt

end Counters

end AccessAdmin
