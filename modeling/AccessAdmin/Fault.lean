import AccessAdmin.Store.Call

/-!
# Planned faults

A plan makes calls on the store fail before they have an effect, or makes them take an hour. Each
fault waits for the calls of one name, lets some of them pass, and then strikes a number of times.

* `Fault.strike`: what the plan does to a call, and what is left of the plan.
-/

namespace AccessAdmin

/-- What happens to a call that a fault strikes. -/
inductive Damage where
  | fail (e : StoreError)
  | hang
deriving DecidableEq, Repr

/-- A planned fault. -/
structure Fault where
  /-- The name of the calls it waits for. -/
  call : String
  damage : Damage
  /-- How many calls it still lets pass. -/
  skip : Nat := 0
  /-- How often it still strikes. -/
  times : Nat := 1
deriving DecidableEq, Repr

namespace Fault

/-- How long a call hangs, in milliseconds. -/
def hangTime : Nat := 3600000

/-- What a plan does to the next call of a name: the first fault that is due strikes; those before
it count the call as passed. -/
def strike (name : String) : List Fault → Option Damage × List Fault
  | [] => (none, [])
  | f :: rest =>
    if f.call = name ∧ 0 < f.times then
      if f.skip = 0 then (some f.damage, { f with times := f.times - 1 } :: rest)
      else
        let (damage, rest) := strike name rest
        (damage, { f with skip := f.skip - 1 } :: rest)
    else
      let (damage, rest) := strike name rest
      (damage, f :: rest)

end Fault

end AccessAdmin
