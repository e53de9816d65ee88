import AccessAdmin.Service.Context

/-!
# Transactions written as data

A script is the work of a transaction as a value: calls on its session, pauses, and transactions
inside the transaction. The first step that fails ends it with its error, unless the step is caught.
What every step came to is noted in the journal, in the order in which the steps end.

* `Script.run`: runs a script in a transaction.
-/

namespace AccessAdmin

/-- A step of a scripted transaction. -/
inductive Script.Step where
  | call (c : Store.Call)
  | inTransaction
  | pause (ms : Nat)
  /-- A transaction inside the transaction, which may end in a failure of its own making. -/
  | transaction (timeout : Option Nat) (steps : List Script.Step) (failure : Option String)
  /-- A step whose error does not end the script. -/
  | caught (step : Script.Step)

/-- The work of a transaction: its steps under a timeout in milliseconds, and whether it fails at
the end. -/
structure Script where
  timeout : Option Nat := none
  steps : List Script.Step
  failure : Option String := none

namespace Script

/-- Work in a transaction that has to end some milliseconds from now. -/
def timed (s : Session) (timeout : Option Nat) (work : Service Unit) : Service Unit := do
  let now ← Service.perform .elapsed
  Context.transaction { deadline := timeout.map (now + ·) } s work

/-- The failure at the end of a transaction, if one is wanted. -/
def conclude : Option String → Service Unit
  | none => pure ()
  | some text => Service.refuse (.validation text)

/-- One call on the session, noted. -/
def call (s : Session) (c : Store.Call) : Service Unit :=
  ExceptT.mk do
    let outcome ← (Service.ofStore (s.call c)).run
    Program.perform (.note (.called c outcome))
    return outcome.map fun _ => ()

/-- Work whose outcome is noted as that of a transaction inside the transaction. -/
def joined (work : Service Unit) : Service Unit :=
  ExceptT.mk do
    let outcome ← work.run
    Program.perform (.note (.joined outcome))
    return outcome

/-- Work whose error is passed over. -/
def forgiven (work : Service Unit) : Service Unit :=
  ExceptT.mk do
    let _ ← work.run
    return .ok ()

mutual

/-- One step of a script. -/
def perform (s : Session) : Step → Service Unit
  | .call c => call s c
  | .inTransaction => do
    Service.perform (.note (.state (← Service.perform (.inTransaction s.id))))
  | .pause ms => do
    Service.perform (.wait ms)
    Service.perform (.note .paused)
  | .transaction timeout steps failure =>
    joined (timed s timeout do
      performAll s steps
      conclude failure)
  | .caught step => forgiven (perform s step)

/-- The steps of a script up to the first that fails. -/
def performAll (s : Session) : List Step → Service Unit
  | [] => pure ()
  | step :: rest => do
    perform s step
    performAll s rest

end

/-- Runs a script in a transaction on a session. -/
def run (s : Session) (script : Script) : Service Unit :=
  timed s script.timeout do
    performAll s script.steps
    conclude script.failure

end Script

end AccessAdmin
